import JigLedger.Proofs.Engine.Opening
import Mathlib.Data.List.Nodup

/-!
# Numbers of new jigs

A pointer of a transaction is its hash and a number. A jig that an instruction constructs has the
number of the instruction, and one that a jig constructs takes the next number from a counter that
starts behind the instructions. Constructors run inside each other, and a jig is noted after those
that its constructor has made; still no number is used twice, neither by two new jigs nor by an
output that is written down later.
-/

namespace JigLedger.Engine

open Wasm (Thread)

variable {α β : Type} {c : Context} {s t u : Session} {own : Prop}

/-- The pointer of a transaction with a number. -/
def Context.pointer (c : Context) (k : Nat) : Pointer := ⟨c.txHash, UInt32.ofNat k⟩

/-- Different numbers give different pointers, as long as they fit into 32 bits. -/
theorem Context.nodup_pointers (c : Context) {ks : List Nat} (nodup : ks.Nodup)
    (fits : ∀ k ∈ ks, k < UInt32.size) : (ks.map c.pointer).Nodup := by
  refine List.Nodup.map_on (fun m hm k hk same => ?_) nodup
  have same := congrArg UInt32.toNat (congrArg Pointer.idx same)
  rwa [pointer, pointer, UInt32.toNat_ofNat_of_lt' (fits m hm),
    UInt32.toNat_ofNat_of_lt' (fits k hk)] at same

/-! ### New jigs -/

/-- The origin of a jig that is new. -/
def TouchedJig.fresh? (jig : TouchedJig) : Option Pointer :=
  if jig.previous = none then some jig.origin else none

/-- The origins of the new jigs. -/
def Session.fresh (s : Session) : List Pointer := s.jigs.filterMap (·.fresh?)

theorem Session.fresh_eq (s : Session) :
    s.fresh = (s.jigs.filter (·.previous.isNone)).map (·.origin) := by
  have one (jig : TouchedJig) :
      jig.fresh? = (Option.guard (·.previous.isNone) jig).map (·.origin) := by
    cases new : jig.previous <;> simp [TouchedJig.fresh?, Option.guard, new]
  rw [fresh, funext one, ← List.map_filterMap, List.filterMap_eq_filter]

theorem Session.fresh_of_jigs (h : t.jigs = s.jigs) : t.fresh = s.fresh := by
  rw [fresh, fresh, h]

theorem Session.fresh_made (s : Session) (jig : TouchedJig) :
    (s.made jig).fresh = s.fresh ++ jig.fresh?.toList := by
  rcases hf : jig.fresh? with _ | origin <;> simp [fresh, made, record, hf]

/-- A jig that has not been touched is not among the new ones. -/
theorem Session.not_mem_fresh {origin : Pointer} (untouched : s.jigIndex? origin = none) :
    origin ∉ s.fresh := by
  intro mem
  obtain ⟨jig, hj, same⟩ := List.mem_filterMap.1 mem
  unfold TouchedJig.fresh? at same
  split at same <;> cases same
  exact Session.jigIndex?_eq_none untouched jig hj rfl

/-- A new lock does not make a jig new. -/
theorem Session.fresh_withLock (s : Session) (idx : Nat) (lock : Lock) :
    (s.withLock idx lock).fresh = s.fresh := by
  have pairs (jigs : List TouchedJig) : jigs.filterMap (·.fresh?) =
      (jigs.map fun j => (j.origin, j.previous)).filterMap fun p =>
        if p.2 = none then some p.1 else none := by
    rw [List.filterMap_map]
    rfl
  rw [fresh, fresh, pairs, pairs, withLock, Grown.map_modify_lock]

/-- New jigs have got numbers of their own: those that were taken in between and, if it is free, the
one of the instruction. -/
structure Counted (c : Context) (own : Prop) (s t : Session) : Prop where
  frames : t.frames = s.frames
  current : t.current = s.current
  le : s.nextIndex ≤ t.nextIndex
  numbers : s.current < s.nextIndex → ∃ ks : List Nat, ks.Nodup ∧
    t.fresh = s.fresh ++ ks.map c.pointer ∧ ∀ k ∈ ks, s.nextIndex ≤ k ∧ k < t.nextIndex ∨
      own ∧ k = s.current ∧ c.pointer k ∉ s.fresh

namespace Counted

/-- No jig is new. -/
theorem same (frames : t.frames = s.frames) (current : t.current = s.current)
    (fresh : t.fresh = s.fresh) (nextIndex : t.nextIndex = s.nextIndex) : Counted c own s t :=
  ⟨frames, current, nextIndex ▸ Nat.le_refl _, fun _ => ⟨[], .nil, by simpa using fresh, nofun⟩⟩

theorem trans (h : Counted c own s t) (h' : Counted c own t u) : Counted c own s u := by
  refine ⟨h'.frames.trans h.frames, h'.current.trans h.current,
    Nat.le_trans h.le h'.le, fun low => ?_⟩
  have le := h.le
  have le' := h'.le
  have current := h.current
  obtain ⟨ks, nodup, fresh, mem⟩ := h.numbers low
  obtain ⟨more, nodup', fresh', mem'⟩ := h'.numbers (by omega)
  refine ⟨ks ++ more, List.nodup_append.2 ⟨nodup, nodup', ?_⟩, ?_, fun k hk => ?_⟩
  · rintro k hk _ hk' rfl
    -- The number of the instruction is not free any more once it has been used.
    have used : c.pointer k ∈ t.fresh := by
      rw [fresh]
      exact List.mem_append_right _ (List.mem_map_of_mem hk)
    rcases mem' k hk' with later | ⟨-, rfl, free⟩
    · rcases mem k hk with earlier | ⟨-, rfl, -⟩ <;> omega
    · exact free used
  · rw [fresh', fresh, List.map_append, List.append_assoc]
  · rcases List.mem_append.1 hk with hk | hk
    · exact (mem k hk).imp_left fun range => ⟨range.1, by omega⟩
    · refine (mem' k hk).imp (fun range => ⟨by omega, range.2⟩) fun ⟨may, here, free⟩ => ?_
      refine ⟨may, here.trans current, fun used => free ?_⟩
      rw [fresh]
      exact List.mem_append_left _ used

theorem mono {own' : Prop} (h : Counted c own s t) (may : own → own') : Counted c own' s t := by
  refine { h with numbers := fun low => ?_ }
  obtain ⟨ks, nodup, fresh, mem⟩ := h.numbers low
  exact ⟨ks, nodup, fresh, fun k hk => (mem k hk).imp_right fun ⟨o, rest⟩ => ⟨may o, rest⟩⟩

/-- Noting an event before makes no difference. -/
theorem of_record {e : Event} (h : Counted c own (s.record e) t) : Counted c own s t :=
  ⟨h.frames, h.current, h.le, h.numbers⟩

end Counted

/-- New jigs have got numbers of their own; that of the instruction only where no call is on the
stack. -/
def Counting (c : Context) (s t : Session) : Prop := Counted c (s.frames = []) s t

theorem Unmoved.counted (h : Unmoved s t) : Counted c own s t :=
  .same h.frames h.current (Session.fresh_of_jigs h.jigs) h.nextIndex

theorem lenient_counting (c : Context) : Lenient (Counting c) where
  silent h := h.unmoved.counted
  trans h h' := by
    have frames := h.frames
    refine Counted.trans h ?_
    rw [Counting, frames] at h'
    exact h'
  noted _ _ _ := .same rfl rfl rfl rfl
  launched _ _ := .same rfl rfl rfl rfl
  started _ _ := .same rfl rfl rfl rfl

/-! ### Calls -/

/-- What runs in a frame does not use the number of the instruction. -/
theorem Leads.counted_inFrame {entry : Entry} {frame : Frame} {callee : Abi.Callable}
    {args : List Value} {body : Engine α} (hb : Leads (Counting c) body) :
    Leads (Counted c False) (inFrame c entry frame callee args body) := by
  intro s a t run
  obtain ⟨u, ran, rfl⟩ := runFrom_inFrame_eq_ok run
  have inner := hb _ _ _ ran
  have frames : u.frames = frame :: s.frames := inner.frames
  refine ⟨congrArg List.tail frames, inner.current, inner.le, fun low => ?_⟩
  obtain ⟨ks, nodup, fresh, mem⟩ := inner.numbers low
  exact ⟨ks, nodup, fresh, fun k hk => (mem k hk).imp_right fun own => absurd own.1 nofun⟩

/-- The number that a jig gets that is about to be constructed. -/
theorem runFrom_newOrigin_eq_ok {h : Host} {origin : Pointer}
    (run : runFrom s (h.newOrigin) = (.ok origin, t)) :
    s.frames = [] ∧ origin = h.context.pointer s.current ∧ t = s ∨
      s.frames ≠ [] ∧ origin = h.context.pointer s.nextIndex ∧
        t = { s with nextIndex := s.nextIndex + 1 } := by
  obtain ⟨_, _, looked, rest⟩ := runFrom_bind_eq_ok run
  cases looked
  split at rest
  case isTrue outside =>
    cases rest
    exact .inl ⟨List.isEmpty_iff.1 outside, rfl, rfl⟩
  case isFalse inside =>
    cases rest
    exact .inr ⟨fun none => inside (List.isEmpty_iff.2 none), rfl, rfl⟩

/-- A new jig is noted with a number that was set aside before its constructor has run. -/
theorem Counted.made (h : Counted c False t u) {jig : TouchedJig} {k : Nat}
    (previous : jig.previous = none) (origin : jig.origin = c.pointer k)
    (frames : t.frames = s.frames) (current : t.current = s.current) (fresh : t.fresh = s.fresh)
    (le : s.nextIndex ≤ t.nextIndex)
    (aside : s.current < s.nextIndex → k < t.nextIndex ∧
      (s.nextIndex ≤ k ∨ own ∧ k = s.current ∧ c.pointer k ∉ s.fresh)) :
    Counted c own s (u.made jig) := by
  refine ⟨h.frames.trans frames, h.current.trans current, Nat.le_trans le h.le, fun low => ?_⟩
  obtain ⟨below, own⟩ := aside low
  have le' := h.le
  obtain ⟨ks, nodup, fresh', mem⟩ := h.numbers (by omega)
  have taken k' (hk : k' ∈ ks) : t.nextIndex ≤ k' ∧ k' < u.nextIndex :=
    (mem k' hk).resolve_right fun own => own.1
  refine ⟨ks ++ [k], List.nodup_append.2 ⟨nodup, List.nodup_singleton _, ?_⟩, ?_, fun k' hk => ?_⟩
  · rintro k' hk _ hk' rfl
    have range := taken k' hk
    have same := List.mem_singleton.1 hk'
    omega
  · have one : jig.fresh?.toList = [c.pointer k] := by
      rw [TouchedJig.fresh?, if_pos previous, origin]
      rfl
    rw [Session.fresh_made, one, fresh', fresh, List.map_append, List.append_assoc]
    rfl
  · have bound : (u.made jig).nextIndex = u.nextIndex := rfl
    rcases List.mem_append.1 hk with hk | hk
    · have range := taken k' hk
      exact .inl ⟨by omega, by omega⟩
    · cases List.mem_singleton.1 hk
      exact own.imp_left fun above => ⟨above, by omega⟩

/-- A jig that is constructed has the number of the instruction, or the next one. -/
theorem Leads.counting_construct {h : Host} (home classIdx : Nat) (args : List Value)
    (call : ∀ cls, Leads (Counting h.context) (h.callConstructor home cls args))
    (new : ∀ cls origin word,
      Leads (Counted h.context False) (h.newJig home classIdx cls origin word)) :
    Leads (Counting h.context) (h.construct home classIdx args) := by
  intro s idx t run
  obtain ⟨inst, _, looked, classing⟩ := runFrom_bind_eq_ok run
  obtain ⟨-, rfl⟩ := runFrom_instanceAt_eq_ok.1 looked
  obtain ⟨cls, _, classed, placing⟩ := runFrom_bind_eq_ok classing
  obtain ⟨-, rfl⟩ := runFrom_orPlain_eq_ok.1 classed
  obtain ⟨origin, v, placed, touching⟩ := runFrom_bind_eq_ok placing
  obtain ⟨i, -, twice⟩ | ⟨untouched, jig, u, made, -, rfl⟩ := runFrom_touch_eq_ok touching
  · cases twice
  obtain ⟨word, w, called, making⟩ := runFrom_bind_eq_ok made
  obtain ⟨rfl, previous, -⟩ := runFrom_newJig_eq_ok making
  have body := Counted.of_record (Leads.counted_inFrame (call cls) _ _ _ called)
  have inner := body.trans (new _ _ _ _ _ _ making)
  obtain ⟨outside, origin, rfl⟩ | ⟨inside, origin, rfl⟩ := runFrom_newOrigin_eq_ok placed
  · refine inner.made previous origin rfl rfl rfl (Nat.le_refl _) fun low =>
      ⟨low, .inr ⟨outside, rfl, fun mem => ?_⟩⟩
    rw [← origin] at mem
    exact Session.not_mem_fresh untouched mem
  · exact inner.made previous origin rfl rfl rfl (Nat.le_succ _) fun _ =>
      ⟨Nat.lt_succ_self _, .inl (Nat.le_refl _)⟩

/-! ### Whatever is built -/

/-- What leaves the transaction alone while there are no frames does not use the number of the
instruction. -/
theorem Leads.counted_of_calm {m : Engine α} (hm : Leads (Counting c) m) (calm : Leads Calm m) :
    Leads (Counted c False) m := by
  intro s a t run
  by_cases frames : s.frames = []
  · exact (calm s a t run frames).counted
  · exact (hm s a t run).mono frames

/-- Neither a package that is deployed nor another lock makes a jig new. -/
theorem steady_counting (c : Context) : Steady c (Counting c) where
  toLenient := lenient_counting c
  deployed _ _ := .same rfl rfl rfl rfl
  relocked s idx lock := .same rfl rfl (s.fresh_withLock idx lock) rfl
  spent s idx _ := .same rfl rfl (s.fresh_withLock idx .frozen) rfl
  inFrame body := fun s a t run => (Leads.counted_inFrame body s a t run).mono False.elim

/-- Whatever is built counts the new jigs, when running guests does. -/
theorem Built.counting {inv : Invoker} {top : Option Nat} {m : Context → Engine α}
    (h : Built inv top m) (calm : ∀ guest errand thread, Leads Calm (inv c guest errand thread))
    (invoke : ∀ guest errand thread, Leads (Counting c) (inv c guest errand thread)) :
    Leads (Counting c) (m c) := by
  have lenient := lenient_counting c
  refine h.leads (steady_counting c) invoke (fun s o jig t run => ?_)
    fun home classIdx args call new => ?_
  · -- A stored jig that is loaded is not new.
    have fresh : (t.made jig).fresh = t.fresh := by
      rw [Session.fresh_made, TouchedJig.fresh?, (runFrom_rehydrate_eq_ok run).2.2]
      exact List.append_nil _
    exact lenient.trans (Leads.rehydrate lenient invoke o s jig t run) (.same rfl rfl fresh rfl)
  · refine .counting_construct (h := inv.host c) home classIdx args call fun cls origin word =>
      Leads.counted_of_calm (new cls origin word) ?_
    exact .newJig lenient_calm calm home classIdx cls origin word

/-! ### Running guests -/

/-- A guest that runs counts the new jigs. -/
theorem Costs.counting_run (c : Context) (room guest : Nat) (thread : Thread) :
    Costs (Counting c) (Engine.run c room guest thread) := by
  refine .run (lenient_counting c) (fun room again function args => ?_) room guest thread
  let inv : Invoker := fun c => Engine.onErrand (Engine.run c room)
  have built : Built inv none fun c => (inv.host c).answer function args := .answer function args
  exact built.counting (Leads.calm_onErrand c room) fun guest errand thread =>
    (again guest errand thread).leads (lenient_counting c)

/-- An instruction counts the new jigs. -/
theorem Leads.counting_instruction (c : Context) (i : Instruction) :
    Leads (Counting c) ((host c).instruction i) := by
  have built : Built invoker none fun c => (invoker.host c).instruction i := .instruction i
  have lenient := lenient_counting c
  exact built.counting (calm_invoke c) fun guest errand thread =>
    (Costs.onErrand lenient (Costs.counting_run c _) guest errand thread).leads lenient

/-! ### Instructions -/

/-- Before an instruction the new jigs have numbers of their own, of earlier instructions or from
the counter. -/
structure Numbered (c : Context) (start idx : Nat) (s : Session) : Prop where
  frames : s.frames = []
  le : start ≤ s.nextIndex
  numbers : ∃ ks : List Nat, ks.Nodup ∧ s.fresh = ks.map c.pointer ∧
    ∀ k ∈ ks, k < idx ∨ start ≤ k ∧ k < s.nextIndex

theorem numbered_start (c : Context) (fuel start : Nat) : Numbered c start 0 (.start fuel start) :=
  ⟨rfl, Nat.le_refl _, [], .nil, rfl, nofun⟩

/-- An instruction keeps the numbers of new jigs apart. -/
theorem Numbered.step {start idx fuel : Nat} {i : Instruction} (h : Numbered c start idx s)
    (low : idx < start) (run : runFrom s (step (host c) idx i) = (.ok fuel, t)) :
    Numbered c start (idx + 1) t := by
  obtain ⟨statement, u, performed, rfl⟩ := runFrom_step_eq_ok run
  have counted : Counted c _ (s.began idx) u := Leads.counting_instruction c i _ _ _ performed
  have le : s.nextIndex ≤ u.nextIndex := counted.le
  have le' := h.le
  obtain ⟨ks, nodup, fresh, mem⟩ := h.numbers
  obtain ⟨more, nodup', fresh', mem'⟩ := counted.numbers (show idx < s.nextIndex by omega)
  have taken k (hk : k ∈ more) : s.nextIndex ≤ k ∧ k < u.nextIndex ∨ k = idx :=
    (mem' k hk).imp_right fun own => own.2.1
  have all : u.fresh = (ks ++ more).map c.pointer := by
    rw [fresh', List.map_append, ← fresh]
    rfl
  refine ⟨counted.frames.trans h.frames, Nat.le_trans h.le le, ks ++ more, ?_, all, fun k hk => ?_⟩
  · refine List.nodup_append.2 ⟨nodup, nodup', ?_⟩
    rintro k hk _ hk' rfl
    rcases mem k hk with _ | _ <;> rcases taken k hk' with _ | _ <;> omega
  · have bound : ({ u with statements := u.statements ++ [statement] } : Session).nextIndex =
      u.nextIndex := rfl
    rcases List.mem_append.1 hk with hk | hk
    · rcases mem k hk with _ | _ <;> omega
    · rcases taken k hk with _ | _ <;> omega

theorem Numbered.steps {instructions : List Instruction} {start idx : Nat} {fuels : List Nat}
    (h : Numbered c start idx s) (low : idx + instructions.length ≤ start)
    (run : runFrom s (steps (host c) idx instructions) = (.ok fuels, t)) :
    Numbered c start (idx + instructions.length) t := by
  induction instructions generalizing s idx fuels with
  | nil =>
    cases run
    exact h
  | cons i rest ih =>
    rw [List.length_cons] at low ⊢
    obtain ⟨fuel, u, second, here, others⟩ := runFrom_steps_cons_eq_ok run
    have all := ih (h.step (by omega) here) (by omega) others
    rwa [Nat.add_assoc, Nat.add_comm 1] at all

end JigLedger.Engine
