import JigLedger.Proofs.Engine.Outcome

/-!
# While an instruction runs

An instruction begins once and is then the current one until the next one begins. Whatever the
engine does for it, at any depth of calls and however it ends, no instruction begins meanwhile. So
what locks see of the signatures is the same from the start of an instruction to its end.
-/

namespace JigLedger.Engine

variable {α β : Type} {c : Context} {s t u : Session}

/-- A session has gone on from another one, and no instruction has begun in between. -/
structure Amid (s t : Session) : Prop where
  current : t.current = s.current
  journal : ∃ events, t.journal = events ++ s.journal ∧ ∀ idx, Event.began idx ∉ events

namespace Amid

theorem trans (h : Amid s t) (h' : Amid t u) : Amid s u := by
  obtain ⟨events, ht, none⟩ := h.journal
  obtain ⟨more, hu, none'⟩ := h'.journal
  refine ⟨h'.current.trans h.current, more ++ events, ?_, fun idx mem => ?_⟩
  · rw [hu, ht, List.append_assoc]
  · exact (List.mem_append.1 mem).elim (none' idx) (none idx)

/-- One event has happened that is not the beginning of an instruction. -/
theorem event {e : Event} (journal : t.journal = e :: s.journal) (current : t.current = s.current)
    (other : ∀ idx, e ≠ .began idx) : Amid s t :=
  ⟨current, [e], journal, fun idx mem => other idx (List.mem_singleton.1 mem).symm⟩

/-- The journal of the earlier session is the end of that of the later one. -/
theorem suffix (h : Amid s t) : s.journal <:+ t.journal := by
  obtain ⟨events, journal, -⟩ := h.journal
  exact ⟨events, journal.symm⟩

end Amid

theorem Quiet.amid (h : Quiet s t) : Amid s t := by
  obtain ⟨texts, journal⟩ := h.journal
  refine ⟨h.current, _, journal, fun idx mem => ?_⟩
  obtain ⟨text, -, same⟩ := List.mem_map.1 mem
  cases same

/-! ### Scenes -/

/-- Only the beginning of an instruction changes which one is current. -/
theorem Scene.current_of_append {events past : List Event}
    (none : ∀ idx, Event.began idx ∉ events) :
    (Scene.of (events ++ past)).current = (Scene.of past).current := by
  induction events with
  | nil => rfl
  | cons e events ih =>
    have before := ih fun idx mem => none idx (.tail _ mem)
    cases e
    case began idx => exact absurd (.head _) (none idx)
    all_goals exact before

/-- The same instruction is current at every event in between. -/
theorem Amid.scene_current (h : Amid s t) {e : Event} {past : List Event}
    (here : e :: past <:+ t.journal) (since : s.journal <:+ past) :
    (Scene.of past).current = s.scene.current := by
  obtain ⟨events, journal, none⟩ := h.journal
  obtain ⟨later, hl⟩ := here
  obtain ⟨between, rfl⟩ := since
  have parts : events = later ++ e :: between := by
    rw [journal] at hl
    exact List.append_cancel_right (by simpa using hl.symm)
  refine Scene.current_of_append fun idx mem => none idx ?_
  rw [parts]
  exact List.mem_append_right _ (.tail _ mem)

/-! ### Computations -/

/-- No instruction begins in a computation, however it ends. -/
def Stays (m : Engine α) : Prop := ∀ s, Amid s (runFrom s m).2

theorem Quietly.stays {m : Engine α} (h : Quietly m) : Stays m := fun s => (h s).amid

theorem ReadsOnly.stays {m : Engine α} (h : ReadsOnly m) : Stays m := h.quietly.stays

/-- The beginning of an instruction is the only thing that may not happen. -/
theorem tolerant_amid : Tolerant Amid where
  inert events journal inert current _ := ⟨current, events, journal, fun _ mem =>
    absurd (inert _ mem) Bool.false_ne_true⟩
  trans := .trans

theorem unruffled_amid (c : Context) : Unruffled c Amid where
  toTolerant := tolerant_amid
  inFrame body :=
    body.framed tolerant_amid.enduring (fun _ => .event rfl rfl nofun) fun _ => .event rfl rfl nofun

namespace Stays

theorem bind {m : Engine α} {f : α → Engine β} (hm : Stays m) (hf : ∀ a, Stays (f a)) :
    Stays (m >>= f) :=
  Ends.bind tolerant_amid.enduring hm hf

/-- No instruction begins while another one runs. -/
theorem instruction (i : Instruction) : Stays ((host c).instruction i) :=
  Ends.instruction (unruffled_amid c) i

end Stays

end JigLedger.Engine
