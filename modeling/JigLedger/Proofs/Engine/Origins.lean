import JigLedger.Proofs.Engine.Settlement
import JigLedger.Proofs.Engine.Soundness
import JigLedger.Proofs.Store
import Mathlib.Data.List.Nodup

/-!
# Origins of touched jigs

A jig is looked up among the touched ones before it is loaded or constructed, and it is noted after
that. In between the code of guests may run, which may touch the same jig: then it is noted while
the one that was begun first is still being made, and afterwards there are two of them. This is the
only way in which two touched jigs get the same origin. Whether it happens is decided by the code of
the guests alone, so it is exactly what keeps the jigs of a transaction apart.
-/

namespace JigLedger.Engine

variable {c : Context}

/-- The origins of the touched jigs. -/
def Scene.origins (v : Scene) : List Pointer := v.jigs.map (·.origin)

/-- A jig is noted while the same jig, begun earlier, is still being made. -/
def Overtakes (v : Scene) (e : Event) : Prop :=
  ∃ jig, e = .made jig ∧ jig.origin ∈ v.making.tail

/-- What comes of making a jig has its origin. -/
theorem Made.origin_eq {instances : List PackageInstance} {asked : Pointer} {jig : TouchedJig}
    (keyed : c.env.store.Keyed) (h : Made c instances asked jig) : jig.origin = asked := by
  cases h with
  | constructed origin => exact origin
  | latest o stored loaded => exact loaded.origin.trans (keyed asked o stored)
  | located o _ _ origin loaded => exact loaded.origin.trans origin

/-- A new lock leaves the origins as they were. -/
theorem map_origin_modify_lock (jigs : List TouchedJig) (idx : Nat) (lock : Lock) :
    (jigs.modify idx fun j => { j with lock := lock }).map (·.origin) = jigs.map (·.origin) := by
  have h := congrArg (List.map Prod.fst) (Grown.map_modify_lock jigs idx lock)
  simpa only [List.map_map, Function.comp_def] using h

/-- The origins after an event: a jig that is noted adds its own. -/
theorem Scene.origins_after (v : Scene) (e : Event) :
    (v.after e).origins = v.origins ++ match e with
      | .made jig => [jig.origin]
      | _ => [] := by
  cases e
  case made jig => simp [origins, after]
  case relocked idx lock => simp [origins, after, withLock, map_origin_modify_lock]
  case spent idx => simp [origins, after, withLock, map_origin_modify_lock]
  all_goals simp [origins, after]

/-- The touched jigs are apart, and none of those that are being made has been touched. -/
structure Scene.Apart (v : Scene) : Prop where
  nodup : v.origins.Nodup
  making : ∀ origin ∈ v.making, origin ∉ v.origins

/-- Jigs stay apart as long as none overtakes another one. -/
theorem Scene.Apart.after {v : Scene} {e : Event} (keyed : c.env.store.Keyed) (h : v.Apart)
    (due : Due c v e) (orderly : ¬ Overtakes v e) : (v.after e).Apart := by
  have origins := v.origins_after e
  cases e
  case making origin =>
    rw [List.append_nil] at origins
    refine ⟨by rw [origins]; exact h.nodup, fun o ho => ?_⟩
    rw [origins]
    rcases List.mem_cons.1 ho with rfl | ho
    · intro mem
      obtain ⟨jig, hj, same⟩ := List.mem_map.1 mem
      exact due jig hj same
    · exact h.making o ho
  case made jig =>
    obtain ⟨asked, head, made⟩ := due
    obtain ⟨more, hm⟩ := List.head?_eq_some_iff.1 head
    -- It was not touched when it was begun, nor has it been since: it is still being made.
    have hasked : jig.origin = asked := made.origin_eq keyed
    have fresh : jig.origin ∉ v.origins := h.making _ (by rw [hm, hasked]; exact .head _)
    refine ⟨?_, fun o ho => ?_⟩
    · rw [origins]
      exact List.nodup_append.2 ⟨h.nodup, List.nodup_singleton _, fun a ha b hb => by
        rintro rfl
        exact fresh (List.mem_singleton.1 hb ▸ ha)⟩
    · rw [origins, List.mem_append, List.mem_singleton]
      rintro (mem | rfl)
      · exact h.making o (List.mem_of_mem_tail ho) mem
      · exact orderly ⟨jig, rfl, ho⟩
  all_goals
    rw [List.append_nil] at origins
    exact ⟨by rw [origins]; exact h.nodup, by rw [origins]; exact h.making⟩

/-- Jigs are apart after a journal in which none has overtaken another one. -/
theorem apart_of_orderly (keyed : c.env.store.Keyed) {journal : List Event}
    (due : Throughout (Due c) journal) (orderly : Throughout (¬ Overtakes · ·) journal) :
    (Scene.of journal).Apart := by
  induction journal with
  | nil => exact ⟨.nil, nofun⟩
  | cons e past ih => exact (ih due.2 orderly.2).after keyed due.1 orderly.1

/-- A jig has been overtaken: it has been noted, and it is being made or has been noted again. -/
def Scene.Overtaken (v : Scene) (origin : Pointer) : Prop :=
  origin ∈ v.origins ∧ (origin ∈ v.making ∨ ¬ v.origins.Nodup)

/-- A jig that has been overtaken stays so until it is noted again. -/
theorem Scene.Overtaken.after {v : Scene} {e : Event} {origin : Pointer}
    (keyed : c.env.store.Keyed) (h : v.Overtaken origin) (due : Due c v e) :
    (v.after e).Overtaken origin := by
  have origins := v.origins_after e
  have mem : origin ∈ (v.after e).origins := by
    rw [origins]
    exact List.mem_append_left _ h.1
  refine ⟨mem, ?_⟩
  rcases h.2 with making | twice
  · cases e
    case making other => exact .inl (.tail _ making)
    case made jig =>
      obtain ⟨asked, head, made⟩ := due
      obtain ⟨more, hm⟩ := List.head?_eq_some_iff.1 head
      rw [hm] at making
      rcases List.mem_cons.1 making with rfl | later
      · refine .inr fun nodup => ?_
        rw [origins, List.nodup_append] at nodup
        exact nodup.2.2 origin h.1 jig.origin (.head _) (made.origin_eq keyed).symm
      · exact .inl (by rw [Scene.after, hm]; exact later)
    all_goals exact .inl making
  · exact .inr fun nodup => twice (List.Nodup.of_append_left (origins ▸ nodup))

/-- When nothing is in progress any more, a jig that was overtaken has been noted twice. -/
theorem not_nodup_of_overtakes (keyed : c.env.store.Keyed) {later past : List Event} {e : Event}
    (due : Throughout (Due c) (later ++ e :: past)) (overtakes : Overtakes (Scene.of past) e)
    (ended : (Scene.of (later ++ e :: past)).making = []) :
    ¬ (Scene.of (later ++ e :: past)).origins.Nodup := by
  obtain ⟨jig, rfl, making⟩ := overtakes
  have start : (Scene.of (.made jig :: past)).Overtaken jig.origin := by
    refine ⟨?_, .inl making⟩
    rw [Scene.of_cons, Scene.origins_after]
    exact List.mem_append_right _ (.head _)
  -- By induction on what happens later, where it need not have ended yet.
  have overtaken : (Scene.of (later ++ .made jig :: past)).Overtaken jig.origin := by
    clear ended
    induction later with
    | nil => exact start
    | cons e later ih => exact (ih due.2).after keyed due.1
  rcases overtaken.2 with making | twice
  · rw [ended] at making
    cases making
  · exact twice

/-- With different keys, an item is at one index only. -/
theorem index_eq_of_nodup {α β : Type} {key : α → β} {items : List α}
    (nodup : (items.map key).Nodup) {i j : Nat} {a b : α} (hi : items[i]? = some a)
    (hj : items[j]? = some b) (same : key a = key b) : i = j := by
  have hlt : i < (items.map key).length := by
    simpa using (List.getElem?_eq_some_iff.1 hi).1
  refine (List.getElem?_inj hlt nodup).1 ?_
  rw [List.getElem?_map, List.getElem?_map, hi, hj, Option.map_some, Option.map_some, same]

/-- With different keys, every item is the last one that has its own. -/
theorem Session.lastIndex?_of_nodup {α β : Type} [DecidableEq β] {key : α → β} {items : List α}
    (nodup : (items.map key).Nodup) {idx : Nat} {a : α} (there : items[idx]? = some a) :
    lastIndex? (fun b => key b = key a) items = some idx := by
  rcases last : lastIndex? (fun b => decide (key b = key a)) items with _ | i
  · simpa using lastIndex?_eq_none last a (List.mem_of_getElem? there)
  · obtain ⟨b, hb, same⟩ := lastIndex?_eq_some last
    rw [index_eq_of_nodup nodup there hb (of_decide_eq_true same).symm]

/-- With different origins, every touched jig is found under its own. -/
theorem Session.jigIndex?_of_nodup {s : Session} (h : (s.jigs.map (·.origin)).Nodup) {idx : Nat}
    {jig : TouchedJig} (hj : s.jigs[idx]? = some jig) : s.jigIndex? jig.origin = some idx :=
  lastIndex?_of_nodup h hj

end JigLedger.Engine
