import JigLedger.Proofs.Engine.Soundness
import Mathlib.Data.List.Nodup

/-!
# On whose behalf requests are made

A request of a guest is taken to come from the package of the top frame: it is that package whose
memory is read, and it is on behalf of that frame that locks are asked. The code of a constructor, a
method or a function runs in a frame of its own, and so does whatever is allocated for its arguments
and for the answers to its requests. An allocator that makes room for a jig that is loaded or
constructed runs in the frame that is there by chance, and a start function runs in one that cannot
be its own. The top frame belongs to the guest that makes a request exactly in the first case, or
when it is that of the package for which there is to be room.
-/

namespace JigLedger.Engine

variable {c : Context} {v : Scene}

/-- The guests of packages, and of those that do not run yet. -/
def Scene.engaged (v : Scene) : List Nat := v.instances.map (·.guest) ++ v.starting

/-- No two packages have the same guest. -/
structure Scene.GuestsApart (v : Scene) : Prop where
  nodup : v.engaged.Nodup
  lt : ∀ guest ∈ v.engaged, guest < v.guests

theorem Scene.GuestsApart.after {e : Event} (h : v.GuestsApart) (due : Due c v e) :
    (v.after e).GuestsApart := by
  cases e
  case launched guest =>
    cases due
    have perm : (v.after (.launched v.guests)).engaged.Perm (v.guests :: v.engaged) :=
      List.perm_middle
    refine ⟨perm.nodup_iff.2 (List.nodup_cons.2 ⟨fun mem => ?_, h.nodup⟩), fun guest mem => ?_⟩
    · exact Nat.lt_irrefl _ (h.lt _ mem)
    · rcases List.mem_cons.1 (perm.mem_iff.1 mem) with rfl | mem
      · exact Nat.lt_succ_self _
      · exact Nat.lt_succ_of_lt (h.lt guest mem)
  case started inst =>
    obtain ⟨rest, head⟩ := List.head?_eq_some_iff.1 due.1
    have same : (v.after (.started inst)).engaged = v.engaged := by
      simp [engaged, Scene.after, head]
    exact ⟨by rw [same]; exact h.nodup, by rw [same]; exact h.lt⟩
  all_goals exact ⟨h.nodup, h.lt⟩

/-- Guests are apart after every journal. -/
theorem guestsApart {journal : List Event} (due : Throughout (Due c) journal) :
    (Scene.of journal).GuestsApart :=
  due.scene ⟨.nil, nofun⟩ fun _ _ h hd => h.after hd

/-- A guest runs for one package only. -/
theorem Scene.GuestsApart.home_eq (h : v.GuestsApart) {home other guest : Nat}
    (h₁ : v.guestOf? home = some guest) (h₂ : v.guestOf? other = some guest) : home = other := by
  have nodup := List.Nodup.of_append_left h.nodup
  rw [guestOf?, ← List.getElem?_map] at h₁ h₂
  obtain ⟨lt₁, eq₁⟩ := List.getElem?_eq_some_iff.1 h₁
  obtain ⟨lt₂, eq₂⟩ := List.getElem?_eq_some_iff.1 h₂
  exact nodup.getElem_inj_iff.1 (eq₁.trans eq₂.symm)

/-- A guest that starts is not that of a package that runs. -/
theorem Scene.GuestsApart.not_starting (h : v.GuestsApart) {home guest : Nat}
    (h₁ : v.guestOf? home = some guest) (h₂ : v.starting.head? = some guest) : False := by
  obtain ⟨inst, hinst, rfl⟩ := Option.map_eq_some_iff.1 h₁
  have disjoint := (List.nodup_append.1 h.nodup).2.2
  exact disjoint _ (List.mem_map_of_mem (List.mem_of_getElem? hinst)) _
    (List.mem_of_mem_head? h₂) rfl

/-- The top frame is that of the package whose guest makes a request. -/
def Scene.Speaks (v : Scene) (guest : Nat) : Prop :=
  ∃ frame, v.frames.head? = some frame ∧ v.guestOf? frame.home = some guest

/-- An errand is done in a frame of the package that it is done for: its own one, or the one that is
on top by chance. -/
def Scene.AtHome (v : Scene) : Errand → Prop
  | .call | .arguments | .answer => True
  | .object home | .origin home => ∃ frame, v.frames.head? = some frame ∧ frame.home = home
  | .start => False

/-- A guest that runs for an errand speaks for its package exactly when the errand is at home. -/
theorem Scene.GuestsApart.speaks_iff (h : v.GuestsApart) {guest : Nat} {errand : Errand}
    (suits : v.Suits ⟨guest, errand⟩) : v.Speaks guest ↔ v.AtHome errand := by
  constructor
  · rintro ⟨frame, top, hg⟩
    cases errand
    case object | origin => exact ⟨frame, top, h.home_eq hg suits⟩
    case start => exact h.not_starting hg suits
    all_goals trivial
  · intro home
    cases errand
    case call | arguments | answer => exact suits
    case object | origin =>
      obtain ⟨frame, top, rfl⟩ := home
      exact ⟨frame, top, suits⟩
    case start => cases home

/-- A request is seen in the frame on top of the stack, by a guest whose code runs for some errand,
and that frame is one of its package exactly when the errand is done at home. -/
def SpokenAtHome (v : Scene) : Event → Prop
  | .requested guest _ top => top = v.frames.head? ∧
      ∃ errand, v.running.head? = some ⟨guest, errand⟩ ∧ (v.Speaks guest ↔ v.AtHome errand)
  | _ => True

/-- In every run, whenever a guest makes a request, the frame on top of the stack is one of its own
package exactly when the errand for which its code runs is done at home. -/
theorem requests_speak_iff_at_home (c : Context) (tx : Transaction) :
    Throughout SpokenAtHome (runTransaction c tx).2.journal := by
  have due := (lawful_runTransaction c tx).due
  refine Throughout.iff_suffix.2 fun e past hs => ?_
  have before := (List.suffix_cons _ past).trans hs
  have apart := guestsApart (due.of_suffix before)
  cases e
  case requested guest function top =>
    obtain ⟨seen, errand, running, suits⟩ := Throughout.iff_suffix.1 due _ past hs
    exact ⟨seen, errand, running, apart.speaks_iff suits⟩
  all_goals trivial

end JigLedger.Engine
