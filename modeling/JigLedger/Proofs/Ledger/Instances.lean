import JigLedger.Proofs.Engine.Origins
import JigLedger.Proofs.Ledger.Imports

/-!
# One instance per package

A package is started when it is needed for the first time, and it is noted among those that run once
its start function has come to its end. Until then it is not found. So when the start function asks
for something that needs the same package, it is started again: this inner instance is noted first,
and then the outer one beside it. Two instances of one package come about in no other way. Whether
it happens is up to the start functions alone: it is exactly how a package gets a second memory.
-/

namespace JigLedger.Engine

variable {c : Context} {s t u : Session}

/-- Of two instances of one package, the one that is noted later was launched earlier, and it has a
start function. -/
def Nested (instances : List PackageInstance) : Prop :=
  instances.Pairwise fun inner outer => inner.package.id = outer.package.id →
    outer.guest < inner.guest ∧ outer.package.module.start.isSome

/-! ### Starting packages -/

/-- The packages that have been started since a session were launched since then, and all instances
are nested if those of that session were. -/
structure Nests (s t : Session) : Prop where
  guests : s.guests.length ≤ t.guests.length
  started : ∃ more, t.instances = s.instances ++ more ∧
    ∀ inst ∈ more, s.guests.length ≤ inst.guest
  nested : Nested s.instances → Nested t.instances

namespace Nests

/-- No package has been started. -/
theorem of_eq (guests : t.guests.length = s.guests.length)
    (instances : t.instances = s.instances) : Nests s t where
  guests := Nat.le_of_eq guests.symm
  started := ⟨[], by rw [instances, List.append_nil], nofun⟩
  nested h := instances ▸ h

theorem trans (h : Nests s t) (h' : Nests t u) : Nests s u where
  guests := Nat.le_trans h.guests h'.guests
  started := by
    obtain ⟨more, ht, late⟩ := h.started
    obtain ⟨more', hu, late'⟩ := h'.started
    refine ⟨more ++ more', by rw [hu, ht, List.append_assoc], fun inst mem => ?_⟩
    rcases List.mem_append.1 mem with mem | mem
    · exact late inst mem
    · exact Nat.le_trans h.guests (late' inst mem)
  nested := h'.nested ∘ h.nested

theorem launched (s : Session) (guest : Guest) : Nests s (s.launched guest) where
  guests := by simp [Session.launched, Session.record]
  started := ⟨[], (List.append_nil _).symm, nofun⟩
  nested := id

/-- A package that did not run when its guest was launched is noted after its start function has
run. The instances of it that have been noted meanwhile were launched later. -/
theorem started_launched {guest : Guest} {inst : PackageInstance}
    (h : Nests (s.launched guest) t) (own : inst.guest = s.guests.length)
    (new : ∀ other ∈ s.instances, other.package.id ≠ inst.package.id)
    (still : inst.package.module.start = none → t.instances = s.instances) :
    Nests s (t.started inst) := by
  have led : Nests s t := (launched s guest).trans h
  obtain ⟨more, instances, late⟩ := h.started
  have instances : t.instances = s.instances ++ more := instances
  have inner : ∀ other ∈ more, inst.guest < other.guest := fun other mem => by
    simpa [Session.launched, Session.record, own] using late other mem
  refine ⟨led.guests, ⟨more ++ [inst], ?_, fun other mem => ?_⟩, fun nested => ?_⟩
  · rw [Session.started, Session.record, instances, List.append_assoc]
  · rcases List.mem_append.1 mem with mem | mem
    · exact own ▸ Nat.le_of_lt (inner other mem)
    · exact Nat.le_of_eq (List.mem_singleton.1 mem ▸ own).symm
  · refine List.pairwise_append.2 ⟨led.nested nested, List.pairwise_singleton _ _, ?_⟩
    intro other mem _ self same
    cases List.mem_singleton.1 self
    rw [instances] at mem
    rcases List.mem_append.1 mem with before | meanwhile
    · exact absurd same (new other before)
    · refine ⟨inner other meanwhile, Option.isSome_iff_ne_none.2 fun startless => ?_⟩
      rw [List.append_right_eq_self.1 (instances.symm.trans (still startless))] at meanwhile
      cases meanwhile

end Nests

theorem enduring_nests : Enduring Nests where
  quiet h := .of_eq h.guests h.instances
  trans := .trans
  noted _ _ _ := .of_eq rfl rfl
  launched := .launched
  made _ _ := .of_eq rfl rfl
  relocked _ _ _ := .of_eq rfl rfl
  spent _ _ _ := .of_eq rfl rfl
  deployed _ _ := .of_eq rfl rfl

/-- A package that does not run yet is launched, whatever its start function does meanwhile. -/
theorem Nests.launch {h : Host}
    (invoke : ∀ guest errand thread, Ends Nests (h.invoke guest errand thread)) {p : Package}
    (new : ∀ other ∈ s.instances, other.package.id ≠ p.id) (targets : List (Option Nat))
    (guest : Guest) : Nests s (runFrom s (h.launch p targets guest)).2 := by
  have enduring := enduring_nests
  rw [Host.launch, runFrom_bind_of_ok (runFrom_addGuest s guest)]
  refine Ends.onward enduring (.launched s guest)
    (.rethrow (.runStart enduring invoke p.module s.guests.length)) fun _ t started led => ?_
  refine Ends.onward enduring ((Nests.launched s guest).trans led)
    (.reads enduring (.allocatorOf p)) fun allocator u named _ => ?_
  obtain rfl := (ReadsOnly.allocatorOf p).of_ok named
  refine led.started_launched rfl new fun startless => ?_
  have ran := runFrom_rethrow_eq_ok.1 started
  rw [Host.runStart, startless] at ran
  cases ran
  rfl

/-- A package is started only if it is not found among those that run. -/
theorem boots_nests (keyed : ∀ id p, c.env.registry.get? id = some p → p.id = id) :
    Boots c Nests := by
  intro inv invoke id s
  have enduring := enduring_nests
  refine Ends.onward enduring (enduring.refl s) (.reads enduring .get) fun _ t looked _ => ?_
  cases looked
  rcases hi : s.instanceIndex? id with _ | idx <;> dsimp only
  case some => exact Ends.reads enduring (.pure idx) s
  refine Ends.onward enduring (enduring.refl s) (.reads enduring (.packageOr c _ id))
    fun p t found _ => ?_
  obtain ⟨found, rfl⟩ := runFrom_packageOr_eq_ok.1 found
  have own : p.id = id := (Session.finds found).elim (keyed id p) And.right
  refine Ends.onward enduring (enduring.refl t)
    (.reads enduring (.mapM (.importTarget c) p.abi.imports)) fun targets u resolved _ => ?_
  obtain rfl := ReadsOnly.of_ok (.mapM (.importTarget c) p.abi.imports) resolved
  refine Ends.onward enduring (enduring.refl u)
    (.rethrow (.reads enduring (.linkedGuest _ p.module))) fun guest v linked _ => ?_
  obtain rfl := (ReadsOnly.linkedGuest _ p.module).of_ok (runFrom_rethrow_eq_ok.1 linked)
  exact .launch invoke (own ▸ Session.instanceIndex?_eq_none hi) targets guest

theorem nests_inFrame {α : Type} {entry : Entry} {frame : Frame} {callee : Abi.Callable}
    {args : List Value} {body : Engine α} (h : Ends Nests body) :
    Ends Nests (inFrame c entry frame callee args body) :=
  h.framed enduring_nests (fun _ => .of_eq rfl rfl) fun _ => .of_eq rfl rfl

/-- However a transaction ends, the instances of its packages are nested. -/
theorem nested_runTransaction (keyed : ∀ id p, c.env.registry.get? id = some p → p.id = id)
    (tx : Transaction) : Nested (runTransaction c tx).2.instances := by
  have run : Ends Nests (transact c tx) :=
    .transact enduring_nests (boots_nests keyed) nests_inFrame (fun _ _ => .of_eq rfl rfl)
      (fun _ _ => .of_eq rfl rfl) tx
  exact (run _).nested .nil

/-! ### Instances in a journal -/

/-- The ids of the packages that run. -/
def Scene.packages (v : Scene) : List PackageId := v.instances.map (·.package.id)

/-- The index of the package with an id among those that run. -/
def Scene.instanceIndex? (v : Scene) (id : PackageId) : Option Nat :=
  Session.lastIndex? (fun i : PackageInstance => i.package.id = id) v.instances

/-- A package is noted that was started around another instance of it: this one was launched later,
and runs already. -/
def Encloses (v : Scene) (e : Event) : Prop :=
  ∃ outer, e = .started outer ∧
    ∃ inner ∈ v.instances, inner.package.id = outer.package.id ∧ outer.guest < inner.guest

/-- Packages that run are never given up. -/
theorem Scene.instances_prefix {past journal : List Event} (hs : past <:+ journal) :
    (Scene.of past).instances <+: (Scene.of journal).instances := by
  obtain ⟨later, rfl⟩ := hs
  induction later with
  | nil => exact List.prefix_rfl
  | cons e later ih =>
    refine ih.trans ?_
    rw [List.cons_append, Scene.of_cons]
    cases e
    case started inst => exact List.prefix_append _ _
    all_goals exact List.prefix_rfl

/-- The ids after an event: a package that is noted adds its own. -/
theorem Scene.packages_after (v : Scene) (e : Event) :
    (v.after e).packages = v.packages ++ match e with
      | .started inst => [inst.package.id]
      | _ => [] := by
  cases e <;> simp [packages, after, withLock]

/-- Packages are different after a journal in which no instance encloses another one, if they are
nested. -/
theorem nodup_packages {journal : List Event} (nested : Nested (Scene.of journal).instances)
    (unenclosed : Throughout (¬ Encloses · ·) journal) : (Scene.of journal).packages.Nodup := by
  induction journal with
  | nil => exact .nil
  | cons e past ih =>
    have earlier := nested.sublist (Scene.instances_prefix ⟨[e], rfl⟩).sublist
    have nodup := ih earlier unenclosed.2
    rw [Scene.of_cons, Scene.packages_after]
    cases e
    case started outer =>
      refine List.nodup_append.2 ⟨nodup, List.nodup_singleton _, fun id runs id' self same => ?_⟩
      obtain ⟨inner, mem, rfl⟩ := List.mem_map.1 runs
      rw [List.mem_singleton.1 self] at same
      have later := (List.pairwise_append.1 nested).2.2 inner mem outer (.head _) same
      exact unenclosed.1 ⟨outer, rfl, inner, mem, same, later.1⟩
    all_goals exact (List.append_nil _).symm ▸ nodup

/-- No instance has enclosed another one of its package if all packages are different. -/
theorem unenclosed_of_nodup {journal : List Event} (nodup : (Scene.of journal).packages.Nodup) :
    Throughout (¬ Encloses · ·) journal := by
  rw [Throughout.iff_suffix]
  rintro _ past hs ⟨outer, rfl, inner, mem, same, -⟩
  have now : (Scene.of (.started outer :: past)).packages.Nodup :=
    List.Nodup.sublist ((Scene.instances_prefix hs).sublist.map _) nodup
  rw [Scene.of_cons, Scene.packages_after, List.nodup_append] at now
  exact now.2.2 _ (List.mem_map_of_mem mem) _ (.head _) same

/-- Nested packages are different if none of them has a start function. -/
theorem Nested.nodup_of_startless {v : Scene} (nested : Nested v.instances)
    (startless : ∀ inst ∈ v.instances, inst.package.module.start = none) : v.packages.Nodup := by
  refine List.pairwise_map.2 (nested.imp_of_mem fun _ mem within same => ?_)
  have starts := (within same).2
  rw [startless _ mem] at starts
  cases starts

/-- Every package that runs is found where it runs, and all touched jigs of it have their home
there. -/
structure Scene.OneEach (v : Scene) : Prop where
  index : ∀ idx inst, v.instances[idx]? = some inst →
    v.instanceIndex? inst.package.id = some idx
  home : ∀ jig ∈ v.jigs, ∀ other ∈ v.jigs, ∀ inst inst', v.instances[jig.home]? = some inst →
    v.instances[other.home]? = some inst' → inst.package.id = inst'.package.id →
      jig.home = other.home

theorem Scene.OneEach.of_nodup {v : Scene} (nodup : v.packages.Nodup) : v.OneEach where
  index _ _ there := Session.lastIndex?_of_nodup nodup there
  home _ _ _ _ _ _ there there' same := index_eq_of_nodup nodup there there' same

/-- At every point of a transaction, of two instances of a package the one that is noted first was
launched within the start of the other one. So packages run once, are found where they run and have
all their jigs there exactly as long as no instance has enclosed another one of its package, which
is always so if none that runs has a start function. -/
theorem instances_distinct_iff_unenclosed
    (keyed : ∀ id p, c.env.registry.get? id = some p → p.id = id) (tx : Transaction) :
    (∀ past, past <:+ (runTransaction c tx).2.journal →
      Nested (Scene.of past).instances ∧
      ((Scene.of past).packages.Nodup ↔ Throughout (¬ Encloses · ·) past) ∧
      (Throughout (¬ Encloses · ·) past → (Scene.of past).OneEach) ∧
      ((∀ inst ∈ (Scene.of past).instances, inst.package.module.start = none) →
        (Scene.of past).OneEach)) ∧
    (Throughout (¬ Encloses · ·) (runTransaction c tx).2.journal →
      ∀ idx inst, (runTransaction c tx).2.instances[idx]? = some inst →
        (runTransaction c tx).2.instanceIndex? inst.package.id = some idx) := by
  have shown : (runTransaction c tx).2.scene.instances = (runTransaction c tx).2.instances :=
    (lawful_runTransaction c tx).shows.instances
  have nested (past : List Event) (hs : past <:+ (runTransaction c tx).2.journal) :
      Nested (Scene.of past).instances := by
    refine List.Pairwise.sublist (Scene.instances_prefix hs).sublist ?_
    rw [← Session.scene, shown]
    exact nested_runTransaction keyed tx
  refine ⟨fun past hs => ?_, fun unenclosed idx inst there => ?_⟩
  · have now := nested past hs
    exact ⟨now, ⟨unenclosed_of_nodup, nodup_packages now⟩,
      fun unenclosed => .of_nodup (nodup_packages now unenclosed),
      fun startless => .of_nodup (now.nodup_of_startless startless)⟩
  · have nodup := nodup_packages (nested _ List.suffix_rfl) unenclosed
    rw [Scene.packages, ← Session.scene, shown] at nodup
    exact Session.lastIndex?_of_nodup nodup there

open Ledger (Well.packageId Herd.context Herd.packageId Herd.sound_registry)

/-- A package that is imported twice runs once. -/
theorem instances_distinct_iff_unenclosed_herd : ∃ (c : Context) (tx : Transaction),
    (∀ id p, c.env.registry.get? id = some p → p.id = id) ∧
    Throughout (¬ Encloses · ·) (runTransaction c tx).2.journal ∧
    (runTransaction c tx).2.scene.packages = [Herd.packageId, Well.packageId] ∧
    ∀ idx inst, (runTransaction c tx).2.instances[idx]? = some inst →
      (runTransaction c tx).2.instanceIndex? inst.package.id = some idx := by
  let tx : Transaction :=
    ⟨[.importPackage Herd.packageId, .importPackage Well.packageId, .importPackage Herd.packageId]⟩
  have keyed (id : PackageId) (p : Package) (h : Herd.context.env.registry.get? id = some p) :
      p.id = id := (Herd.sound_registry id p h).1
  have packages : (runTransaction Herd.context tx).2.scene.packages =
      [Herd.packageId, Well.packageId] := by decide +kernel
  obtain ⟨points, found⟩ := instances_distinct_iff_unenclosed keyed tx
  have unenclosed := (points _ List.suffix_rfl).2.1.1 <| by
    rw [← Session.scene, packages]
    decide +kernel
  exact ⟨Herd.context, tx, keyed, unenclosed, packages, found unenclosed⟩

end JigLedger.Engine
