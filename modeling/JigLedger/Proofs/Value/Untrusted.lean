import JigLedger.Proofs.Value.Guarded
import JigLedger.Proofs.Value.Room
import JigLedger.Proofs.Value.Shape
import JigLedger.Proofs.Value.Slots

/-!
# Reading memory that nobody vouches for

A guest may have written anything to its memory, and it may pass any address. Whatever is read has
the shape of its type all the same. The only things that reading does not look at are the keys of
maps: a map may have the same key twice, or one that is too long to be encoded. Such values do not
get any further, because they are neither encoded nor passed on.
-/

namespace JigLedger

/-- When the work on a heap has failed, it is over. -/
def Heap.Absorbs {m : Type → Type} [Monad m] (heap : Heap m) : Prop :=
  ∀ (α β : Type) (e : MemoryError) (f : α → m β), heap.fail e >>= f = heap.fail e

namespace Ty

variable {t k v : Ty} {x : Value} {fields : List Field} {values : List Value}

/-! ### What is read -/

variable {mem : LinearMemory} {address p : UInt32}

theorem shaped_of_readScalar (read : t.readScalar mem address = .ok x) : t.Shaped x := by
  obtain ⟨bs, -, shown⟩ := bind_eq_ok.1 read
  cases t <;> cases shown <;> exact .leaf rfl rfl

theorem shaped_of_readSlot {pointee : UInt32 → Except MemoryError Value}
    (inner : ∀ p x, pointee p = .ok x → t.Shaped x)
    (read : t.readSlot mem pointee address = .ok x) : t.Shaped x := by
  unfold readSlot at read
  split at read
  · exact shaped_of_readScalar read
  · obtain ⟨p, -, read⟩ := bind_eq_ok.1 read
    exact inner p x read

/-- Fields are read one by one. -/
theorem readFieldsAt_eq_ok : readFieldsAt mem fields address = .ok values ↔
    List.Forall₂ (fun f x => f.ty.readValue mem (address + f.offset) = .ok x) fields values := by
  induction fields generalizing values with
  | nil => simp [readFieldsAt, eq_comm]
  | cons f rest ih =>
    simp only [readFieldsAt, bind_eq_ok, ih]
    constructor
    case mp =>
      rintro ⟨x, here, more, others, returned⟩
      cases returned
      exact .cons here others
    case mpr =>
      rintro (_ | ⟨here, others⟩)
      exact ⟨_, here, _, others, rfl⟩

theorem shaped_of_leaf (plain : t.isLeaf = true) (read : t.readPointee mem p = .ok x) :
    t.Shaped x := by
  cases t <;> try cases plain
  case string | bytes | jig =>
    rw [readPointee] at read
    split at read
    · cases read
    · obtain ⟨found, -, read⟩ := bind_eq_ok.1 read
      try split at read
      all_goals
        cases read
        try exact .leaf rfl rfl
  all_goals cases read

/-- What a pointer leads to has the shape of its type. -/
theorem shaped_of_readPointee (proper : t.Proper) :
    ∀ p x, t.readPointee mem p = .ok x → t.Shaped x := by
  induction proper with
  | leaf plain => exact fun p x => shaped_of_leaf plain
  | array _ ih =>
    intro p x read
    rw [readPointee] at read
    split at read
    · cases read
    · obtain ⟨length, -, read⟩ := bind_eq_ok.1 read
      obtain ⟨data, -, read⟩ := bind_eq_ok.1 read
      obtain ⟨_, -, read⟩ := bind_eq_ok.1 read
      obtain ⟨items, found, returned⟩ := bind_eq_ok.1 read
      cases returned
      refine .array fun x here => ?_
      obtain ⟨address, read⟩ := exists_of_readStrided found here
      exact shaped_of_readSlot ih read
  | @map k v plain _ ih =>
    intro p x read
    rw [readPointee] at read
    split at read
    · cases read
    · obtain ⟨length, -, read⟩ := bind_eq_ok.1 read
      obtain ⟨data, -, read⟩ := bind_eq_ok.1 read
      obtain ⟨_, -, read⟩ := bind_eq_ok.1 read
      obtain ⟨entries, found, returned⟩ := bind_eq_ok.1 read
      cases returned
      have parts (e : Value × Value) (here : e ∈ entries) : k.Shaped e.1 ∧ v.Shaped e.2 := by
        obtain ⟨address, read⟩ := exists_of_readStrided found here
        obtain ⟨key, hk, read⟩ := bind_eq_ok.1 read
        obtain ⟨value, hv, returned⟩ := bind_eq_ok.1 read
        cases returned
        exact ⟨shaped_of_readSlot (fun p x => shaped_of_leaf plain) hk, shaped_of_readSlot ih hv⟩
      exact .map (fun e mem => (parts e mem).1) fun e mem => (parts e mem).2
  | nullable _ _ ih =>
    intro p x read
    rw [readPointee] at read
    split at read
    · cases read
      exact .null
    · split at read
      · exact .nullable (shaped_of_readScalar read)
      · exact .nullable (ih p x read)
  | object _ _ ih =>
    intro p x read
    rw [readPointee] at read
    split at read
    · cases read
    · obtain ⟨values, found, returned⟩ := bind_eq_ok.1 read
      cases returned
      have each := readFieldsAt_eq_ok.1 found
      refine .object each.length_eq fun i f x field here => ?_
      exact shaped_of_readSlot (ih f (List.mem_of_getElem? field))
        (forall₂_getElem? each field here)

theorem shaped_of_lift (proper : t.Proper) {word : UInt64} (read : t.lift mem word = .ok x) :
    t.Shaped x := by
  have pointee := @shaped_of_readPointee t mem proper word.toUInt32
  cases t
  case string | bytes | array | map | nullable | object | jig => exact pointee x read
  all_goals
    cases read
    exact .leaf rfl rfl

/-! ### Arguments -/

variable {params : List Field} {blob : UInt32}

/-- No field ends behind the extent of all fields. -/
theorem le_extent {f : Field} (h : f ∈ fields) :
    (f.offset + f.ty.size).toNat ≤ (extent fields).toNat := by
  have folds (n : UInt32) :
      n.toNat ≤ (fields.foldl (fun n f => max n (f.offset + f.ty.size)) n).toNat ∧
      ∀ f ∈ fields, (f.offset + f.ty.size).toNat ≤
        (fields.foldl (fun n f => max n (f.offset + f.ty.size)) n).toNat := by
    clear h
    induction fields generalizing n with
    | nil => exact ⟨Nat.le_refl _, nofun⟩
    | cons f rest ih =>
      obtain ⟨most, others⟩ := ih (max n (f.offset + f.ty.size))
      rw [Layout.toNat_max] at most
      exact ⟨(le_max_left _ _).trans most,
        List.forall_mem_cons.2 ⟨(le_max_right _ _).trans most, others⟩⟩
  exact (folds 0).2 f h

/-- Arguments are read from a blob that is long enough. -/
theorem exists_of_readArgs (read : readArgs mem params blob = .ok values) :
    (params = [] ∧ values = []) ∨ ∃ length, mem.readWord blob = .ok length ∧
      (extent params).toNat ≤ length.toNat ∧ readFieldsAt mem params (blob + 4) = .ok values := by
  unfold readArgs at read
  split at read
  case isTrue none =>
    cases read
    exact .inl ⟨List.isEmpty_iff.1 none, rfl⟩
  case isFalse =>
    split at read
    · cases read
    · obtain ⟨length, word, read⟩ := bind_eq_ok.1 read
      dsimp only at read
      split at read
      · cases read
      case isFalse enough =>
        have enough := UInt32.le_iff_toNat_le.1 (UInt32.not_lt.1 enough)
        exact .inr ⟨length, word, enough, read⟩

/-- An argument is taken from inside the bytes that a blob declares. -/
structure Taken (mem : LinearMemory) (blob length : UInt32) (f : Field) (x : Value) : Prop where
  read : f.ty.readValue mem (blob + 4 + f.offset) = .ok x
  address : (blob + 4 + f.offset).toNat = blob.toNat + 4 + f.offset.toNat
  inside : f.offset.toNat + f.ty.size.toNat ≤ length.toNat

/-- All arguments are taken from inside the blob. -/
theorem taken_of_readArgs {declared : List (String × Ty)} {size : UInt32}
    (small : mem.size + 8 ≤ UInt32.size) (laid : Layout.place 0 declared = (params, size))
    (read : readArgs mem params blob = .ok values) (some : params ≠ []) :
    ∃ length, mem.readWord blob = .ok length ∧
      List.Forall₂ (Taken mem blob length) params values := by
  obtain ⟨none, -⟩ | ⟨length, word, enough, read⟩ := exists_of_readArgs read
  · exact absurd none some
  · refine ⟨length, word, ?_⟩
    have head := Guarded.inside_of_readWord word
    have body : (blob + 4).toNat = blob.toNat + 4 :=
      Layout.toNat_add_of_lt (show blob.toNat + 4 < UInt32.size by omega)
    cases laid
    have inside := Guarded.inside_of_readFieldsAt small rfl (.inl rfl) read
    have each := (List.forall₂_and_left _ _).2 ⟨fun f => id, readFieldsAt_eq_ok.1 read⟩
    refine each.imp fun f x ⟨here, read⟩ => ?_
    have inside := inside f here
    have needed := le_extent here
    rw [Layout.toNat_add_of_lt (by omega)] at needed
    refine ⟨read, ?_, needed.trans enough⟩
    rw [Layout.toNat_add_of_lt (by omega), body]

/-! ### Flawed values -/

/-- A flawed value is not encoded, and it is not passed on. -/
structure Rejected (t : Ty) (x : Value) : Prop where
  encodeState : ∀ (types : List Ty) (values : List Value) (i : Nat), types[i]? = some t →
    values[i]? = some x → ∃ e, encodeState types values = .error e
  lower : ∀ (m : Type → Type) [Monad m] (heap : Heap m), heap.Absorbs →
    ∃ e, t.lower heap x = heap.fail (.value e)

theorem Flawed.rejected (h : t.Flawed x) (proper : t.Proper) : t.Rejected x := by
  constructor
  case encodeState =>
    intro types values i type here
    rcases encoded : Ty.encodeState types values with e | bs
    · exact ⟨e, rfl⟩
    · exact absurd (check_of_encodesRow (encodeState_eq_ok.1 encoded) type here)
        (h.not_check proper)
  case lower =>
    intro m _ heap absorbs
    rcases checked : t.check x with e | _
    · refine ⟨e, ?_⟩
      unfold Ty.lower
      rw [checked]
      exact absorbs _ _ _ _
    · exact absurd checked (h.not_check proper)

/-! ### All of reading -/

/-- A value has the shape of its type, and it is accepted unless it is flawed. -/
structure Sound (t : Ty) (x : Value) : Prop where
  shaped : t.Shaped x
  accepted : t.check x = .ok () ∨ t.Flawed x

theorem Shaped.sound (h : t.Shaped x) (proper : t.Proper) : t.Sound x :=
  ⟨h, or_iff_not_imp_right.2 (h.check proper)⟩

/-- Reading a value comes to the same when it is guarded, and gives a sound value or an error. -/
structure ReadsSafely (t : Ty) (guarded : Guarded Value) (read : Except MemoryError Value) :
    Prop where
  guarded : guarded.run = some read
  sound : ∀ x, read = .ok x → t.Sound x

/-- Reading arguments comes to the same when it is guarded, and gives sound values from inside the
blob or an error. The length that is needed is the only thing that is not computed from addresses:
it does not overflow either if laying out the parameters did not. -/
structure ReadsArgsSafely (mem : LinearMemory) (declared : List (String × Ty))
    (params : List Field) (size blob : UInt32) : Prop where
  guarded : (Guarded.readArgs mem (pure (extent params)) params blob).run =
    some (readArgs mem params blob)
  needed : (Guarded.place 0 declared).run = some (.ok (params, size)) →
    (Guarded.readArgs mem (Guarded.extent params) params blob).run =
      some (readArgs mem params blob)
  sound : ∀ values, readArgs mem params blob = .ok values →
    List.Forall₂ (fun f x => f.ty.Sound x) params values
  taken : ∀ values, readArgs mem params blob = .ok values → params ≠ [] →
    ∃ length, mem.readWord blob = .ok length ∧
      List.Forall₂ (Taken mem blob length) params values

theorem readsArgsSafely {declared : List (String × Ty)} {size : UInt32}
    (small : mem.size + 8 ≤ UInt32.size) (proper : ∀ f ∈ params, f.ty.Proper)
    (laid : Layout.place 0 declared = (params, size)) :
    ReadsArgsSafely mem declared params size blob := by
  constructor
  case guarded => exact Guarded.follows_readArgs small laid proper (Guarded.follows_pure _)
  case needed =>
    exact fun run => Guarded.follows_readArgs small laid proper (Guarded.follows_extent run)
  case sound =>
    intro values read
    obtain ⟨rfl, rfl⟩ | ⟨length, -, -, read⟩ := exists_of_readArgs read
    · exact .nil
    · refine ((List.forall₂_and_left _ _).2 ⟨proper, readFieldsAt_eq_ok.1 read⟩).imp ?_
      exact fun f x ⟨proper, read⟩ =>
        (shaped_of_readSlot (shaped_of_readPointee proper) read).sound proper
  case taken => exact fun values read some => taken_of_readArgs small laid read some

/-- Reading memory that may contain anything is safe. For all types that can be declared, all
addresses and all words: reading comes to a result, and to the same one when it is guarded against
overflows and against bytes that are not there. The result is an error or a value of the type, in
which maps may have keys that are not accepted; a value with such keys does not get any further. -/
theorem reading_guarded_and_sound (mem : LinearMemory) (small : mem.size ≤ 2 ^ 32 - 8) :
    (∀ t : Ty, t.IsResolved →
      (∀ address, t.ReadsSafely (Guarded.readValue mem t address) (t.readValue mem address)) ∧
      (∀ p, t.ReadsSafely (Guarded.readPointee mem t p) (t.readPointee mem p)) ∧
      (∀ word, t.ReadsSafely (Guarded.lift mem t word) (t.lift mem word)) ∧
      ∀ x, t.Flawed x → t.Rejected x) ∧
    (∀ address, (Guarded.readOrigin mem address).run = some (readOrigin mem address)) ∧
    ∀ (declared : List (String × Ty)) (params : List Field) (size : UInt32),
      (∀ d ∈ declared, d.2.IsResolved) → Layout.place 0 declared = (params, size) →
        ∀ blob, ReadsArgsSafely mem declared params size blob := by
  have small : mem.size + 8 ≤ UInt32.size := by
    change _ ≤ 2 ^ 32
    omega
  have properly (t : Ty) (resolved : t.IsResolved) : t.Proper := by
    obtain ⟨s, e, typed⟩ := resolved
    exact Abi.Scope.proper_type typed
  refine ⟨fun t resolved => ?_, fun address => Guarded.follows_readOrigin (by omega), ?_⟩
  · have proper := properly t resolved
    have pointee := @shaped_of_readPointee t mem proper
    refine ⟨fun address => ⟨Guarded.follows_readValue small proper, fun x read => ?_⟩,
      fun p => ⟨Guarded.follows_readPointee small proper p, fun x read => ?_⟩,
      fun word => ⟨Guarded.follows_lift small proper word, fun x read => ?_⟩,
      fun x flawed => flawed.rejected proper⟩
    · exact (shaped_of_readSlot pointee read).sound proper
    · exact (pointee p x read).sound proper
    · exact (shaped_of_lift proper read).sound proper
  · intro declared params size resolved laid blob
    refine readsArgsSafely small (fun f mem => ?_) laid
    have placed : f ∈ (Layout.place 0 declared).1 := by rwa [laid]
    exact properly _ (resolved _ (Layout.exists_of_mem_place placed))

/-! ### A map with the same key twice -/

namespace Twins

/-- How `Map<u8, u8>` is written. -/
def written : Abi.TypeExpr := .mk "Map" false [.mk "u8" false [], .mk "u8" false []]

/-- What it means. -/
def type : Ty := .map .u8 .u8

/-- At address 8 a record that leads to two entries at address 16, both with the key 1. At address
24 a blob whose only argument is this record. -/
def memory : LinearMemory :=
  (LinearMemory.zeros 32).overwrite 8
    ([2, 0, 0, 0, 16, 0, 0, 0] ++ [1, 5, 1, 6] ++ [0, 0, 0, 0] ++ [4, 0, 0, 0, 8, 0, 0, 0])

/-- The map that is read. -/
def value : Value := .map [(.u8 1, .u8 5), (.u8 1, .u8 6)]

/-- The parameter of this type, laid out. -/
def parameters : List Field := [⟨"counts", type, 0⟩]

theorem isResolved : type.IsResolved := ⟨⟨default, [], []⟩, written, by cbv⟩

theorem absorbs : BumpMemory.heap.Absorbs := fun _ _ _ _ => rfl

end Twins

open Twins

/-- A map with the same key twice is read, also as an argument, and it is not encoded or passed
on. -/
theorem reading_guarded_and_sound_twins : memory.size ≤ 2 ^ 32 - 8 ∧ type.IsResolved ∧
    (Guarded.readPointee memory type 8).run = some (.ok value) ∧
    type.Flawed value ∧ (∃ e, encodeState [type] [value] = .error e) ∧
    (∃ e, type.lower BumpMemory.heap value = BumpMemory.heap.fail (.value e)) ∧
    (Guarded.readArgs memory (Guarded.extent parameters) parameters 24).run = some (.ok [value]) ∧
    List.Forall₂ (Taken memory 24 4) parameters [value] := by
  have small : memory.size ≤ 2 ^ 32 - 8 := by
    rw [memory, LinearMemory.size_overwrite]
    decide
  obtain ⟨values, -, args⟩ := reading_guarded_and_sound memory small
  obtain ⟨-, pointees, -, rejected⟩ := values type isResolved
  have read : type.readPointee memory 8 = .ok value := rfl
  have flawed := ((pointees 8).sound value read).accepted.resolve_left nofun
  have safe := args [("counts", type)] parameters 4 (List.forall_mem_singleton.2 isResolved) rfl 24
  have found : readArgs memory parameters 24 = .ok [value] := rfl
  obtain ⟨length, word, taken⟩ := safe.taken [value] found nofun
  obtain rfl : length = 4 := (Except.ok.inj word).symm
  exact ⟨small, isResolved, read ▸ (pointees 8).guarded, flawed,
    (rejected value flawed).encodeState [type] [value] 0 rfl rfl,
    (rejected value flawed).lower _ _ absorbs, found ▸ safe.needed rfl, taken⟩

end Ty

end JigLedger
