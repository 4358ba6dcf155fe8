import JigLedger.Proofs.Ledger.Chronicle

/-!
# What is accounted for when a transaction is over

All touched jigs are gone through once, in the order in which they were touched. Whatever was loaded
is spent, and whatever is not frozen is written down: a new jig where it was made, and a loaded one
at a pointer of its own. These pointers are numbered one after the other.
-/

namespace JigLedger

namespace Engine

variable {c : Context} {s t : Session} {jig : TouchedJig} {jigs : List TouchedJig}
  {outputs : List Output} {spends : List Spend} {place : Pointer} {o : Output}

/-- The jigs of which an output is left, in their order. -/
def live (jigs : List TouchedJig) : List TouchedJig := jigs.filter fun jig => !jig.lock.isFrozen

/-- The number of jigs that get a new pointer. -/
def moved (jigs : List TouchedJig) : Nat := jigs.countP (·.previous.isSome)

/-- Where a jig is written down when `n` is the index of the next pointer. -/
def placeOf (c : Context) (jig : TouchedJig) (n : Nat) : Pointer :=
  match jig.previous with
  | none => jig.origin
  | some _ => ⟨c.txHash, UInt32.ofNat n⟩

/-- So many pointers have been made. -/
def Session.numbered (s : Session) (n : Nat) : Session := { s with nextIndex := s.nextIndex + n }

/-- An output is that of a jig: it has the origin, the class and the lock of the jig, and the fields
that the jig has in memory. -/
structure WrittenDown (s : Session) (jig : TouchedJig) (place : Pointer) (o : Output) : Prop where
  origin : o.origin = jig.origin
  location : o.location = place
  classPtr : ∃ inst, s.instances[jig.home]? = some inst ∧
    o.classPtr = .ofExport inst.package.id (UInt32.ofNat jig.classIdx)
  contents : ∃ cls, Recorded s jig o.lock cls o.state

/-- What is left of all touched jigs: one output for each that is not frozen and one spend for each
that was loaded, in the order of the jigs. -/
structure Accounted (c : Context) (s : Session) (jigs : List TouchedJig) (outputs : List Output)
    (spends : List Spend) (t : Session) : Prop where
  length : outputs.length = (live jigs).length
  written : ∀ (i : Nat) jig o, (live jigs)[i]? = some jig → outputs[i]? = some o →
    WrittenDown s jig (placeOf c jig (s.nextIndex + moved ((live jigs).take i))) o
  spends : spends = jigs.filterMap fun jig => jig.previous.map (⟨jig.origin, ·⟩)
  session : t = s.numbered (moved (live jigs))

/-! ### One jig -/

theorem moved_cons (jig : TouchedJig) (jigs : List TouchedJig) :
    moved (jig :: jigs) = moved [jig] + moved jigs := by
  simp only [moved, List.countP_cons, List.countP_nil]
  omega

theorem Session.numbered_numbered (s : Session) (m n : Nat) :
    (s.numbered m).numbered n = s.numbered (m + n) := by
  simp only [numbered, Nat.add_assoc]

/-- How many pointers have been made does not matter to what is written. -/
theorem writtenDown_numbered {n : Nat} :
    WrittenDown (s.numbered n) jig place o ↔ WrittenDown s jig place o :=
  ⟨fun h => ⟨h.origin, h.location, h.classPtr, h.contents.imp fun _ r => ⟨r.lock, r.fields⟩⟩,
    fun h => ⟨h.origin, h.location, h.classPtr, h.contents.imp fun _ r => ⟨r.lock, r.fields⟩⟩⟩

/-- The class that a jig is written down with is one of its own package. -/
theorem Recorded.writtenDown {lock : LockRecord} {cls : Abi.Class} {state : Bytes}
    (built : ∀ inst ∈ s.instances, inst.package.IsBuilt) (h : Recorded s jig lock cls state) :
    WrittenDown s jig place (outputOf jig lock cls state place) := by
  obtain ⟨inst, -, -, hinst, hcls, -⟩ := h.fields
  have own := (built inst (List.mem_of_getElem? hinst)).ref_package hcls
  exact ⟨rfl, rfl, ⟨inst, hinst, by rw [← own]; rfl⟩, cls, h⟩

/-- Nothing but what is recorded of a jig is written down. -/
theorem WrittenDown.exists_recorded (built : ∀ inst ∈ s.instances, inst.package.IsBuilt)
    (h : WrittenDown s jig place o) :
    ∃ cls, Recorded s jig o.lock cls o.state ∧ o = outputOf jig o.lock cls o.state place := by
  obtain ⟨inst, hinst, pointer⟩ := h.classPtr
  obtain ⟨cls, recorded⟩ := h.contents
  obtain ⟨inst', -, -, hinst', hcls, -⟩ := recorded.fields
  obtain rfl : inst = inst' := Option.some.inj (hinst.symm.trans hinst')
  have own := (built inst (List.mem_of_getElem? hinst)).ref_package hcls
  refine ⟨cls, recorded, ?_⟩
  rw [outputOf, own, ← pointer, ← h.origin, ← h.location]

/-- A frozen jig leaves no output. -/
theorem runFrom_settle_of_frozen (frozen : jig.lock.isFrozen = true) :
    runFrom s (settle c jig) = (.ok ⟨spendOf jig, none⟩, s) := by
  rw [settle, if_pos frozen]
  rfl

/-- Another jig is written down, and takes a pointer if it was loaded. -/
theorem runFrom_settle_of_recorded {lock : LockRecord} {cls : Abi.Class} {state : Bytes}
    (thawed : jig.lock.isFrozen = false) (h : Recorded s jig lock cls state) :
    runFrom s (settle c jig) =
      (.ok ⟨spendOf jig, some (outputOf jig lock cls state (placeOf c jig s.nextIndex))⟩,
        s.numbered (moved [jig])) := by
  obtain ⟨inst, guest, values, hinst, hcls, hguest, hvalues, hstate⟩ := h.fields
  have classed : runFrom s (Host.classOfJig jig) = (.ok cls, s) := by
    rw [Host.classOfJig, runFrom_bind_of_ok (runFrom_instanceAt_eq_ok.2 ⟨hinst, rfl⟩)]
    exact runFrom_orPlain_eq_ok.2 ⟨hcls, rfl⟩
  rw [settle, if_neg (by rw [thawed]; decide),
    runFrom_bind_of_ok (runFrom_orError_eq_ok.2 ⟨h.lock, rfl⟩), runFrom_bind_of_ok classed,
    runFrom_bind_of_ok (runFrom_look_of_ok hinst hguest hvalues),
    runFrom_bind_of_ok (runFrom_orError_eq_ok.2 ⟨hstate, rfl⟩)]
  rcases hp : jig.previous with _ | previous <;>
    simp only [spendOf, placeOf, moved, List.countP_cons, hp] <;> rfl

/-- What is left of a jig that is not frozen is what is written down of it. -/
theorem runFrom_settle_of_live {l : Leaving} (thawed : jig.lock.isFrozen = false)
    (built : ∀ inst ∈ s.instances, inst.package.IsBuilt) :
    runFrom s (settle c jig) = (.ok l, t) ↔ ∃ o,
      WrittenDown s jig (placeOf c jig s.nextIndex) o ∧ l = ⟨spendOf jig, some o⟩ ∧
        t = s.numbered (moved [jig]) := by
  constructor
  case mp =>
    intro run
    obtain ⟨frozen, -⟩ | ⟨-, lock, cls, state, location, recorded, -⟩ := runFrom_settle_eq_ok run
    · rw [thawed] at frozen
      cases frozen
    · obtain ⟨rfl, rfl⟩ : _ ∧ _ := by
        simpa using run.symm.trans (runFrom_settle_of_recorded thawed recorded)
      exact ⟨_, recorded.writtenDown built, rfl, rfl⟩
  case mpr =>
    rintro ⟨o, written, rfl, rfl⟩
    obtain ⟨cls, recorded, same⟩ := written.exists_recorded built
    rw [runFrom_settle_of_recorded thawed recorded, ← same]

/-! ### All jigs -/

theorem live_cons_of_frozen (frozen : jig.lock.isFrozen = true) :
    live (jig :: jigs) = live jigs := by
  rw [live, List.filter_cons_of_neg (by simp [frozen]), live]

theorem live_cons_of_live (thawed : jig.lock.isFrozen = false) :
    live (jig :: jigs) = jig :: live jigs := by
  rw [live, List.filter_cons_of_pos (by simp [thawed]), live]

theorem filterMap_cons_toList {α β : Type} (f : α → Option β) (a : α) (items : List α) :
    (a :: items).filterMap f = (f a).toList ++ items.filterMap f := by
  rw [List.filterMap_eq_flatMap_toList, List.filterMap_eq_flatMap_toList, List.flatMap_cons]

theorem accounted_nil : Accounted c s [] outputs spends t ↔ outputs = [] ∧ spends = [] ∧ t = s := by
  constructor
  case mp => exact fun h => ⟨List.length_eq_zero_iff.1 h.length, h.spends, h.session⟩
  case mpr =>
    rintro ⟨rfl, rfl, rfl⟩
    exact ⟨rfl, nofun, rfl, rfl⟩

/-- A frozen jig adds at most a spend to what is left of the others. -/
theorem accounted_cons_of_frozen (frozen : jig.lock.isFrozen = true) :
    Accounted c s (jig :: jigs) outputs spends t ↔ ∃ more,
      spends = (spendOf jig).toList ++ more ∧ Accounted c s jigs outputs more t := by
  constructor
  case mp =>
    rintro ⟨length, written, spends, session⟩
    rw [live_cons_of_frozen frozen] at length written session
    exact ⟨_, spends.trans (filterMap_cons_toList ..), length, written, rfl, session⟩
  case mpr =>
    rintro ⟨more, rfl, length, written, rfl, session⟩
    rw [← live_cons_of_frozen frozen] at length written session
    exact ⟨length, written, (filterMap_cons_toList ..).symm, session⟩

/-- Another jig adds an output, and the jigs behind it are numbered from there. -/
theorem accounted_cons_of_live (thawed : jig.lock.isFrozen = false) :
    Accounted c s (jig :: jigs) outputs spends t ↔ ∃ o later more,
      outputs = o :: later ∧ spends = (spendOf jig).toList ++ more ∧
        WrittenDown s jig (placeOf c jig s.nextIndex) o ∧
          Accounted c (s.numbered (moved [jig])) jigs later more t := by
  have behind (i : Nat) : s.nextIndex + moved ((jig :: live jigs).take (i + 1)) =
      (s.numbered (moved [jig])).nextIndex + moved ((live jigs).take i) := by
    rw [List.take_succ_cons, moved_cons, ← Nat.add_assoc]
    rfl
  constructor
  case mp =>
    rintro ⟨length, written, spends, session⟩
    rw [live_cons_of_live thawed] at length written session
    obtain ⟨o, later, rfl⟩ := List.exists_cons_of_length_eq_add_one length
    refine ⟨o, later, _, rfl, spends.trans (filterMap_cons_toList ..), written 0 jig o rfl rfl,
      Nat.succ.inj length, fun i next p hnext hp => ?_, rfl, ?_⟩
    · rw [← behind, writtenDown_numbered]
      exact written (i + 1) next p hnext hp
    · rw [session, moved_cons, s.numbered_numbered]
  case mpr =>
    rintro ⟨o, later, more, rfl, rfl, first, length, written, rfl, session⟩
    refine ⟨?_, ?_, (filterMap_cons_toList ..).symm, ?_⟩
    · rw [live_cons_of_live thawed, List.length_cons, List.length_cons, length]
    · rw [live_cons_of_live thawed]
      rintro (_ | i) next p hnext hp
      · cases hnext
        cases hp
        exact first
      · rw [behind, ← writtenDown_numbered]
        exact written i next p hnext hp
    · rw [session, live_cons_of_live thawed, moved_cons jig (live jigs), s.numbered_numbered]

/-- Going through jigs leaves these outputs and these spends. -/
def Leaves (c : Context) (s : Session) (jigs : List TouchedJig) (outputs : List Output)
    (spends : List Spend) (t : Session) : Prop :=
  ∃ ls, runFrom s (jigs.mapM (settle c)) = (.ok ls, t) ∧ ls.filterMap (·.output) = outputs ∧
    ls.filterMap (·.spend) = spends

theorem leaves_nil : Leaves c s [] outputs spends t ↔ outputs = [] ∧ spends = [] ∧ t = s := by
  rw [Leaves, List.mapM_nil, runFrom_pure]
  constructor
  case mp =>
    rintro ⟨ls, ⟨⟩, rfl, rfl⟩
    exact ⟨rfl, rfl, rfl⟩
  case mpr =>
    rintro ⟨rfl, rfl, rfl⟩
    exact ⟨[], rfl, rfl, rfl⟩

theorem leaves_cons : Leaves c s (jig :: jigs) outputs spends t ↔ ∃ l u later more,
    runFrom s (settle c jig) = (.ok l, u) ∧ outputs = l.output.toList ++ later ∧
      spends = l.spend.toList ++ more ∧ Leaves c u jigs later more t := by
  constructor
  case mp =>
    rintro ⟨ls, run, rfl, rfl⟩
    obtain ⟨l, u, rest, first, others, rfl⟩ := runFrom_mapM_cons_eq_ok.1 run
    exact ⟨l, u, _, _, first, filterMap_cons_toList .., filterMap_cons_toList ..,
      rest, others, rfl, rfl⟩
  case mpr =>
    rintro ⟨l, u, _, _, first, rfl, rfl, rest, others, rfl, rfl⟩
    exact ⟨l :: rest, runFrom_mapM_cons_eq_ok.2 ⟨l, u, rest, first, others, rfl⟩,
      filterMap_cons_toList .., filterMap_cons_toList ..⟩

/-- What is left is what is accounted for. -/
theorem leaves_iff_accounted (built : ∀ inst ∈ s.instances, inst.package.IsBuilt) :
    Leaves c s jigs outputs spends t ↔ Accounted c s jigs outputs spends t := by
  induction jigs generalizing s outputs spends with
  | nil => rw [leaves_nil, accounted_nil]
  | cons jig jigs ih =>
    rw [leaves_cons]
    rcases frozen : jig.lock.isFrozen with _ | _
    case true =>
      rw [accounted_cons_of_frozen frozen]
      constructor
      case mp =>
        rintro ⟨l, u, later, more, first, rfl, rfl, others⟩
        obtain ⟨rfl, rfl⟩ : _ ∧ _ := by
          simpa using first.symm.trans (runFrom_settle_of_frozen frozen)
        exact ⟨more, rfl, (ih built).1 others⟩
      case mpr =>
        rintro ⟨more, rfl, others⟩
        exact ⟨_, s, outputs, more, runFrom_settle_of_frozen frozen, rfl, rfl, (ih built).2 others⟩
    case false =>
      have same : ∀ inst ∈ (s.numbered (moved [jig])).instances, inst.package.IsBuilt := built
      rw [accounted_cons_of_live frozen]
      constructor
      case mp =>
        rintro ⟨l, u, later, more, first, rfl, rfl, others⟩
        obtain ⟨o, written, rfl, rfl⟩ := (runFrom_settle_of_live frozen built).1 first
        exact ⟨o, later, more, rfl, rfl, written, (ih same).1 others⟩
      case mpr =>
        rintro ⟨o, later, more, rfl, rfl, written, others⟩
        exact ⟨_, _, later, more, (runFrom_settle_of_live frozen built).2 ⟨o, written, rfl, rfl⟩,
          rfl, rfl, (ih same).2 others⟩

theorem runFrom_finalize_eq_ok :
    runFrom s (finalize c) = (.ok (outputs, spends), t) ↔
      Leaves c s s.jigs outputs spends t := by
  rw [finalize, runFrom_bind_of_ok (runFrom_get s)]
  constructor
  case mp =>
    intro run
    obtain ⟨ls, u, settled, returned⟩ := runFrom_bind_eq_ok run
    cases returned
    exact ⟨ls, settled, rfl, rfl⟩
  case mpr =>
    rintro ⟨ls, settled, rfl, rfl⟩
    rw [runFrom_bind_of_ok settled]
    rfl

/-- Nothing is left when a jig has not been locked. -/
theorem not_leaves_of_unlocked (mem : jig ∈ jigs) (unlocked : jig.lock = .unlocked) :
    ¬ Leaves c s jigs outputs spends t := by
  rintro ⟨ls, settled, -⟩
  obtain ⟨l, -, u, v, run⟩ := exists_of_runFrom_mapM settled jig mem
  obtain ⟨frozen, -⟩ | ⟨-, lock, _, _, _, recorded, -⟩ := runFrom_settle_eq_ok run
  · rw [unlocked] at frozen
    cases frozen
  · have stored := recorded.lock
    rw [unlocked] at stored
    cases stored

/-- When finalization succeeds, each touched jig that is not frozen has one output, in the order of
the jigs: with its origin, its class, its lock and its fields, where it was made if it is new, and
at the next one of consecutive pointers if it was loaded. Each jig that was loaded has one spend.
Nothing else is left. Finalization succeeds whenever all this can be written down, and that is not
so of a jig that has not been locked. -/
theorem finalize_accounts (c : Context) (s : Session) :
    ((∀ inst ∈ s.instances, inst.package.IsBuilt) → ∀ outputs spends t,
      runFrom s (finalize c) = (.ok (outputs, spends), t) ↔
        Accounted c s s.jigs outputs spends t) ∧
    ((∃ jig ∈ s.jigs, jig.lock = .unlocked) → ∃ e, (runFrom s (finalize c)).1 = .error e) := by
  refine ⟨fun built outputs spends t => ?_, ?_⟩
  · rw [runFrom_finalize_eq_ok, leaves_iff_accounted built]
  · rintro ⟨jig, mem, unlocked⟩
    rcases run : runFrom s (finalize c) with ⟨e | ⟨outputs, spends⟩, t⟩
    · exact ⟨e, rfl⟩
    · exact absurd (runFrom_finalize_eq_ok.1 run) (not_leaves_of_unlocked mem unlocked)

end Engine

/-! ### Five coins -/

namespace Ledger.Till

/-- A transaction of which only the hash matters. -/
def context : Engine.Context where
  env := ⟨policy.config, opening.registry, .empty, policy.compiler, policy.verifier⟩
  txHash := ⟨List.replicate 32 7, rfl⟩
  signers := []

/-- A coin with its place and its lock, whose object is at an address. -/
def touched (origin : Pointer) (previous : Option Pointer) (address : UInt32) (lock : Lock) :
    Engine.TouchedJig := ⟨origin, previous, 0, 0, address, lock⟩

/-- The memory of five coins, of which three have the amounts 1, 3 and 5. -/
def coins : LinearMemory :=
  (((LinearMemory.zeros 80).overwrite 8 [1]).overwrite 40 [3]).overwrite 72 [5]

/-- Two coins are new, and one of them is frozen; three coins were loaded, and one of them is
frozen. Two instructions have been run. -/
def closing : Engine.Session :=
  { Engine.Session.start 100 2 with
    guests := [⟨⟨package.module, coins, [], 80⟩, []⟩]
    instances := [⟨package, 0, 0, []⟩]
    jigs := [
      touched ⟨context.txHash, 0⟩ none 0 .everyone,
      touched ⟨.zero 32, 1⟩ (some ⟨.zero 32, 11⟩) 16 .frozen,
      touched ⟨.zero 32, 2⟩ (some ⟨.zero 32, 12⟩) 32 .unowned,
      touched ⟨context.txHash, 1⟩ none 48 .frozen,
      touched ⟨.zero 32, 4⟩ (some ⟨.zero 32, 14⟩) 64 (.jig ⟨.zero 32, 2⟩)] }

/-- The output of a coin with an amount. -/
def output (origin location : Pointer) (lock : LockRecord) (amount : UInt8) : Output :=
  ⟨origin, location, .ofExport packageId 0, lock, [amount, 0, 0, 0, 0, 0, 0, 0]⟩

/-- A coin that is in memory is written down with its amount. -/
theorem writtenDown_output {origin location : Pointer} {previous : Option Pointer}
    {address : UInt32} {lock : Lock} {record : LockRecord} {amount : UInt8}
    (locked : lock.toRecord origin = .ok record)
    (read : Ty.readFieldsAt coins coin.fields address = .ok [.u64 amount.toUInt64])
    (encoded : Ty.encodeState coin.fieldTypes [.u64 amount.toUInt64] =
      .ok [amount, 0, 0, 0, 0, 0, 0, 0]) :
    Engine.WrittenDown closing (touched origin previous address lock) location
      (output origin location record amount) :=
  ⟨rfl, rfl, ⟨_, rfl, rfl⟩, coin, locked, _, _, _, rfl, rfl, rfl, read, encoded⟩

end Ledger.Till

namespace Engine

open Ledger.Till

/-- Of five coins three are left, and two of these have moved. With a coin that nobody has locked,
nothing is left. -/
theorem finalize_accounts_closing : (∀ inst ∈ closing.instances, inst.package.IsBuilt) ∧
    runFrom closing (finalize context) =
      (.ok ([output ⟨context.txHash, 0⟩ ⟨context.txHash, 0⟩ ⟨⟨context.txHash, 0⟩, 3, []⟩ 1,
          output ⟨.zero 32, 2⟩ ⟨context.txHash, 2⟩ ⟨⟨.zero 32, 2⟩, 0, []⟩ 3,
          output ⟨.zero 32, 4⟩ ⟨context.txHash, 3⟩
            ⟨⟨.zero 32, 4⟩, 2, (⟨.zero 32, 2⟩ : Pointer).toBytes⟩ 5],
        [⟨⟨.zero 32, 1⟩, ⟨.zero 32, 11⟩⟩, ⟨⟨.zero 32, 2⟩, ⟨.zero 32, 12⟩⟩,
          ⟨⟨.zero 32, 4⟩, ⟨.zero 32, 14⟩⟩]), closing.numbered 2) ∧
    ∃ e, (runFrom { closing with jigs := [touched ⟨context.txHash, 0⟩ none 0 .unlocked] }
      (finalize context)).1 = .error e := by
  have built : ∀ inst ∈ closing.instances, inst.package.IsBuilt :=
    List.forall_mem_singleton.2 ⟨_, _, _, build_package⟩
  refine ⟨built, ((finalize_accounts context closing).1 built _ _ _).2 ⟨rfl, ?_, rfl, rfl⟩,
    (finalize_accounts context _).2 ⟨_, .head _, rfl⟩⟩
  rintro (_ | _ | _ | i) jig o hjig ho
  · cases hjig
    cases ho
    exact writtenDown_output rfl rfl rfl
  · cases hjig
    cases ho
    exact writtenDown_output rfl rfl rfl
  · cases hjig
    cases ho
    exact writtenDown_output rfl rfl rfl
  · cases ho

end Engine

end JigLedger
