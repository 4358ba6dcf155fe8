import JigLedger.Proofs.Value.Canonical
import JigLedger.Value.Layout

/-!
# Jigs in values

A jig stands in a value at a slot, as the type of the value directs. The slots are those that are
gone through when arguments are checked, and a value that has passed the check of its type, or that
has been read from memory at its type, holds jigs at slots only.
-/

namespace JigLedger

/-- A step from a value to one of its parts. -/
inductive Value.Step where
  | item (idx : Nat)
  | key (idx : Nat)
  | value (idx : Nat)
  | field (idx : Nat)

/-- A jig is named in a value, where a path leads. -/
inductive Value.Names : Value → List Step → Pointer → Prop
  | jig (origin : Pointer) : Names (.jig origin) [] origin
  | item {items : List Value} {idx : Nat} {v : Value} {path : List Step} {origin : Pointer}
      (here : items[idx]? = some v) (h : Names v path origin) :
      Names (.array items) (.item idx :: path) origin
  | key {entries : List (Value × Value)} {idx : Nat} {e : Value × Value} {path : List Step}
      {origin : Pointer} (here : entries[idx]? = some e) (h : Names e.1 path origin) :
      Names (.map entries) (.key idx :: path) origin
  | value {entries : List (Value × Value)} {idx : Nat} {e : Value × Value} {path : List Step}
      {origin : Pointer} (here : entries[idx]? = some e) (h : Names e.2 path origin) :
      Names (.map entries) (.value idx :: path) origin
  | field {values : List Value} {idx : Nat} {v : Value} {path : List Step} {origin : Pointer}
      (here : values[idx]? = some v) (h : Names v path origin) :
      Names (.object values) (.field idx :: path) origin

namespace Ty

open Value (Step)

/-- Where a path leads in a value of a type, there is a slot with a demand, and a jig is named. -/
inductive Slot : Ty → Value → List Step → Pointer → JigTy → Prop
  | jig (origin : Pointer) (demand : JigTy) : Slot (.jig demand) (.jig origin) [] origin demand
  | nullable {t : Ty} {v : Value} {path : List Step} {origin : Pointer} {demand : JigTy}
      (h : Slot t v path origin demand) : Slot (.nullable t) v path origin demand
  | item {t : Ty} {items : List Value} {idx : Nat} {v : Value} {path : List Step}
      {origin : Pointer} {demand : JigTy} (here : items[idx]? = some v)
      (h : Slot t v path origin demand) :
      Slot (.array t) (.array items) (.item idx :: path) origin demand
  | key {k t : Ty} {entries : List (Value × Value)} {idx : Nat} {e : Value × Value}
      {path : List Step} {origin : Pointer} {demand : JigTy} (here : entries[idx]? = some e)
      (h : Slot k e.1 path origin demand) :
      Slot (.map k t) (.map entries) (.key idx :: path) origin demand
  | value {k t : Ty} {entries : List (Value × Value)} {idx : Nat} {e : Value × Value}
      {path : List Step} {origin : Pointer} {demand : JigTy} (here : entries[idx]? = some e)
      (h : Slot t e.2 path origin demand) :
      Slot (.map k t) (.map entries) (.value idx :: path) origin demand
  | field {name : String} {fields : List Field} {size : UInt32} {values : List Value} {idx : Nat}
      {f : Field} {v : Value} {path : List Step} {origin : Pointer} {demand : JigTy}
      (field : fields[idx]? = some f) (here : values[idx]? = some v)
      (h : Slot f.ty v path origin demand) :
      Slot (.object name fields size) (.object values) (.field idx :: path) origin demand

variable {t : Ty} {v : Value} {path : List Step} {origin : Pointer} {demand : JigTy}
  {fields : List Field} {values : List Value}

theorem mem_jigsInFields : (origin, demand) ∈ jigsInFields fields values ↔
    ∃ (idx : Nat) (f : Field) (v : Value),
      fields[idx]? = some f ∧ values[idx]? = some v ∧ (origin, demand) ∈ f.ty.jigsIn v := by
  induction fields generalizing values with
  | nil => simp [jigsInFields]
  | cons f fields ih =>
    cases values with
    | nil => simp [jigsInFields]
    | cons v values =>
      rw [jigsInFields, List.mem_append, ih]
      constructor
      · rintro (here | ⟨idx, later⟩)
        · exact ⟨0, f, v, rfl, rfl, here⟩
        · exact ⟨idx + 1, later⟩
      · rintro ⟨_ | idx, g, w, field, value, here⟩
        · cases field
          cases value
          exact .inl here
        · exact .inr ⟨idx, g, w, field, value, here⟩

/-- A slot is gone through. -/
theorem Slot.mem_jigsIn (h : t.Slot v path origin demand) : (origin, demand) ∈ t.jigsIn v := by
  induction h with
  | jig => exact .head _
  | nullable _ ih => rwa [jigsIn]
  | item here _ ih =>
    rw [jigsIn]
    exact List.mem_flatMap.2 ⟨_, List.mem_of_getElem? here, ih⟩
  | key here _ ih =>
    rw [jigsIn]
    exact List.mem_flatMap.2 ⟨_, List.mem_of_getElem? here, List.mem_append_left _ ih⟩
  | value here _ ih =>
    rw [jigsIn]
    exact List.mem_flatMap.2 ⟨_, List.mem_of_getElem? here, List.mem_append_right _ ih⟩
  | field field here _ ih =>
    rw [jigsIn]
    exact mem_jigsInFields.2 ⟨_, _, _, field, here, ih⟩

mutual

/-- What is gone through is at a slot. -/
theorem exists_slot : ∀ (t : Ty) (v : Value), (origin, demand) ∈ t.jigsIn v →
    ∃ path, t.Slot v path origin demand
  | .jig demand', v, mem => by
    cases v <;> rw [jigsIn] at mem
    case jig origin' =>
      cases List.mem_singleton.1 mem
      exact ⟨[], .jig _ _⟩
    all_goals cases mem
  | .nullable t, v, mem => by
    rw [jigsIn] at mem
    obtain ⟨path, slot⟩ := exists_slot t v mem
    exact ⟨path, .nullable slot⟩
  | .array t, v, mem => by
    cases v <;> rw [jigsIn] at mem
    case array items =>
      obtain ⟨item, mem, here⟩ := List.mem_flatMap.1 mem
      obtain ⟨idx, item⟩ := List.mem_iff_getElem?.1 mem
      obtain ⟨path, slot⟩ := exists_slot t _ here
      exact ⟨.item idx :: path, .item item slot⟩
    all_goals cases mem
  | .map k t, v, mem => by
    cases v <;> rw [jigsIn] at mem
    case map entries =>
      obtain ⟨e, mem, here⟩ := List.mem_flatMap.1 mem
      obtain ⟨idx, entry⟩ := List.mem_iff_getElem?.1 mem
      rcases List.mem_append.1 here with here | here
      · obtain ⟨path, slot⟩ := exists_slot k _ here
        exact ⟨.key idx :: path, .key entry slot⟩
      · obtain ⟨path, slot⟩ := exists_slot t _ here
        exact ⟨.value idx :: path, .value entry slot⟩
    all_goals cases mem
  | .object name fields size, v, mem => by
    cases v <;> rw [jigsIn] at mem
    case object values =>
      obtain ⟨idx, f, v, path, field, here, slot⟩ := exists_slotInFields fields values mem
      exact ⟨.field idx :: path, .field field here slot⟩
    all_goals cases mem
  | .bool, v, mem | .u8, v, mem | .u16, v, mem | .u32, v, mem | .u64, v, mem | .i8, v, mem
  | .i16, v, mem | .i32, v, mem | .i64, v, mem | .string, v, mem | .bytes, v, mem => by
    simp [jigsIn] at mem

/-- The same for the values of fields. -/
theorem exists_slotInFields : ∀ (fields : List Field) (values : List Value),
    (origin, demand) ∈ jigsInFields fields values →
      ∃ (idx : Nat) (f : Field) (v : Value) (path : List Step), fields[idx]? = some f ∧
        values[idx]? = some v ∧ f.ty.Slot v path origin demand
  | [], _, mem => by simp [jigsInFields] at mem
  | _ :: _, [], mem => by simp [jigsInFields] at mem
  | ⟨_, t, _⟩ :: fields, v :: values, mem => by
    rw [jigsInFields, List.mem_append] at mem
    rcases mem with mem | mem
    · obtain ⟨path, slot⟩ := exists_slot t v mem
      exact ⟨0, _, v, path, rfl, rfl, slot⟩
    · obtain ⟨idx, later⟩ := exists_slotInFields fields values mem
      exact ⟨idx + 1, later⟩

end

/-! ### Values that hold jigs at slots only -/

/-- Wherever a jig is named in a value, there is a slot of its type. -/
def Slotted (t : Ty) (v : Value) : Prop :=
  ∀ path origin, v.Names path origin → ∃ demand, t.Slot v path origin demand

/-- Each value belongs to a field, and it holds jigs at slots of the field only. -/
def SlottedRow (fields : List Field) (values : List Value) : Prop :=
  ∀ (idx : Nat) (v : Value), values[idx]? = some v →
    ∃ f : Field, fields[idx]? = some f ∧ f.ty.Slotted v

theorem slottedRow_nil : SlottedRow fields [] := fun _ _ here => by simp at here

theorem SlottedRow.cons {f : Field} (first : f.ty.Slotted v) (rest : SlottedRow fields values) :
    SlottedRow (f :: fields) (v :: values) := by
  rintro (_ | idx) w here
  · cases here
    exact ⟨f, rfl, first⟩
  · exact rest idx w here

theorem slotted_jig : (jig demand).Slotted (.jig origin) := by
  rintro _ _ ⟨⟩
  exact ⟨demand, .jig origin demand⟩

theorem Slotted.nullable (h : t.Slotted v) : (nullable t).Slotted v := by
  intro path origin names
  obtain ⟨demand, slot⟩ := h path origin names
  exact ⟨demand, .nullable slot⟩

theorem slotted_array {items : List Value} (h : ∀ v ∈ items, t.Slotted v) :
    (array t).Slotted (.array items) := by
  rintro _ origin (_ | ⟨here, names⟩)
  obtain ⟨demand, slot⟩ := h _ (List.mem_of_getElem? here) _ origin names
  exact ⟨demand, .item here slot⟩

theorem slotted_map {k : Ty} {entries : List (Value × Value)}
    (h : ∀ e ∈ entries, k.Slotted e.1 ∧ t.Slotted e.2) : (map k t).Slotted (.map entries) := by
  intro _ origin names
  cases names with
  | key here names =>
    obtain ⟨demand, slot⟩ := (h _ (List.mem_of_getElem? here)).1 _ origin names
    exact ⟨demand, .key here slot⟩
  | value here names =>
    obtain ⟨demand, slot⟩ := (h _ (List.mem_of_getElem? here)).2 _ origin names
    exact ⟨demand, .value here slot⟩

theorem SlottedRow.object {name : String} {size : UInt32} (h : SlottedRow fields values) :
    (object name fields size).Slotted (.object values) := by
  intro _ origin names
  cases names with
  | field here names =>
    obtain ⟨f, field, slotted⟩ := h _ _ here
    obtain ⟨demand, slot⟩ := slotted _ origin names
    exact ⟨demand, .field field here slot⟩

/-! ### Checked values -/

mutual

/-- A value that has the shape of a type holds jigs at slots only. -/
theorem slotted_of_check : ∀ (t : Ty) (v : Value), t.check v = .ok () → t.Slotted v
  | .nullable t, v, shape => by
    by_cases absent : v = .null
    · rw [absent]
      exact nofun
    · rw [check_nullable absent] at shape
      exact (slotted_of_check t v shape).nullable
  | .array t, v, shape => by
    cases v <;> try cases shape
    case array items =>
      exact slotted_array fun v mem => slotted_of_check t v (forM_eq_ok.1 shape v mem)
  | .map k t, v, shape => by
    cases v <;> try cases shape
    case map entries =>
      refine slotted_map fun e mem => ?_
      obtain ⟨key, value⟩ := entries_of_check shape e mem
      exact ⟨slotted_of_check k e.1 key, slotted_of_check t e.2 value⟩
  | .object name fields size, v, shape => by
    cases v <;> try cases shape
    case object values =>
      simp only [check] at shape
      split at shape
      case isTrue few => exact (slottedRow_of_checkFields fields values few shape).object
      case isFalse => cases shape
  | .jig demand, v, shape => by
    cases v <;> try cases shape
    exact slotted_jig
  | .bool, v, shape | .u8, v, shape | .u16, v, shape | .u32, v, shape | .u64, v, shape
  | .i8, v, shape | .i16, v, shape | .i32, v, shape | .i64, v, shape | .string, v, shape
  | .bytes, v, shape => by
    cases v <;> try cases shape
    exact nofun

/-- The same for the values of all fields. -/
theorem slottedRow_of_checkFields : ∀ (fields : List Field) (values : List Value),
    fields.length = values.length → checkFields fields values = .ok () →
      SlottedRow fields values
  | [], [], _, _ => slottedRow_nil
  | ⟨_, t, _⟩ :: fields, v :: values, few, shapes => by
    obtain ⟨_, first, rest⟩ := bind_eq_ok.1 shapes
    exact .cons (slotted_of_check t v first)
      (slottedRow_of_checkFields fields values (Nat.succ.inj few) rest)

end

/-! ### Values in memory -/

variable {mem : LinearMemory} {address : UInt32}

/-- A scalar holds no jig. -/
theorem slotted_of_readScalar (read : t.readScalar mem address = .ok v) : t.Slotted v := by
  obtain ⟨bs, -, shown⟩ := bind_eq_ok.1 read
  cases t <;> cases shown <;> exact nofun

theorem slotted_of_readSlot {pointee : UInt32 → Except MemoryError Value}
    (inner : ∀ address v, pointee address = .ok v → t.Slotted v)
    (read : t.readSlot mem pointee address = .ok v) : t.Slotted v := by
  unfold readSlot at read
  split at read
  · exact slotted_of_readScalar read
  · obtain ⟨target, -, read⟩ := bind_eq_ok.1 read
    exact inner target v read

/-- Each of the items that were read is found at some address. -/
theorem exists_of_readStrided {α : Type} {item : UInt32 → Except MemoryError α} {stride : UInt32}
    {a : α} : ∀ {count : Nat} {address : UInt32} {items : List α},
      readStrided item stride address count = .ok items → a ∈ items →
        ∃ address, item address = .ok a
  | 0, _, _, read, mem => by
    cases read
    cases mem
  | count + 1, address, _, read, mem => by
    obtain ⟨first, here, others⟩ := bind_eq_ok.1 read
    obtain ⟨rest, later, returned⟩ := bind_eq_ok.1 others
    cases returned
    rcases List.mem_cons.1 mem with rfl | mem
    · exact ⟨address, here⟩
    · exact exists_of_readStrided later mem

mutual

/-- What a pointer of a type leads to holds jigs at slots only. -/
theorem slotted_of_readPointee (mem : LinearMemory) : ∀ (t : Ty) (p : UInt32) (v : Value),
    t.readPointee mem p = .ok v → t.Slotted v
  | .nullable t, p, v, read => by
    rw [readPointee] at read
    split at read
    · cases read
      exact nofun
    · split at read
      · exact (slotted_of_readScalar read).nullable
      · exact (slotted_of_readPointee mem t p v read).nullable
  | .array t, p, v, read => by
    rw [readPointee] at read
    split at read
    · cases read
    · obtain ⟨length, -, read⟩ := bind_eq_ok.1 read
      obtain ⟨data, -, read⟩ := bind_eq_ok.1 read
      obtain ⟨_, -, read⟩ := bind_eq_ok.1 read
      obtain ⟨items, found, returned⟩ := bind_eq_ok.1 read
      cases returned
      refine slotted_array fun v here => ?_
      obtain ⟨address, read⟩ := exists_of_readStrided found here
      exact slotted_of_readSlot (slotted_of_readPointee mem t) read
  | .map k t, p, v, read => by
    rw [readPointee] at read
    split at read
    · cases read
    · obtain ⟨length, -, read⟩ := bind_eq_ok.1 read
      obtain ⟨data, -, read⟩ := bind_eq_ok.1 read
      obtain ⟨_, -, read⟩ := bind_eq_ok.1 read
      obtain ⟨entries, found, returned⟩ := bind_eq_ok.1 read
      cases returned
      refine slotted_map fun e here => ?_
      obtain ⟨address, read⟩ := exists_of_readStrided found here
      obtain ⟨key, hk, read⟩ := bind_eq_ok.1 read
      obtain ⟨value, hv, returned⟩ := bind_eq_ok.1 read
      cases returned
      exact ⟨slotted_of_readSlot (slotted_of_readPointee mem k) hk,
        slotted_of_readSlot (slotted_of_readPointee mem t) hv⟩
  | .object name fields size, p, v, read => by
    rw [readPointee] at read
    split at read
    · cases read
    · obtain ⟨values, found, returned⟩ := bind_eq_ok.1 read
      cases returned
      exact (slottedRow_of_readFieldsAt mem fields p values found).object
  | .jig demand, p, v, read => by
    rw [readPointee] at read
    split at read
    · cases read
    · obtain ⟨origin, -, returned⟩ := bind_eq_ok.1 read
      cases returned
      exact slotted_jig
  | .string, p, v, read => by
    rw [readPointee] at read
    split at read
    · cases read
    · obtain ⟨bs, -, read⟩ := bind_eq_ok.1 read
      split at read <;> cases read
      exact nofun
  | .bytes, p, v, read => by
    rw [readPointee] at read
    split at read
    · cases read
    · obtain ⟨bs, -, returned⟩ := bind_eq_ok.1 read
      cases returned
      exact nofun
  | .bool, p, v, read | .u8, p, v, read | .u16, p, v, read | .u32, p, v, read | .u64, p, v, read
  | .i8, p, v, read | .i16, p, v, read | .i32, p, v, read | .i64, p, v, read => by
    simp [readPointee] at read

/-- The same for the values of all fields. -/
theorem slottedRow_of_readFieldsAt (mem : LinearMemory) : ∀ (fields : List Field) (base : UInt32)
    (values : List Value), readFieldsAt mem fields base = .ok values → SlottedRow fields values
  | [], _, _, read => by
    cases read
    exact slottedRow_nil
  | ⟨_, t, _⟩ :: fields, base, _, read => by
    obtain ⟨v, first, read⟩ := bind_eq_ok.1 read
    obtain ⟨values, rest, returned⟩ := bind_eq_ok.1 read
    cases returned
    exact .cons (slotted_of_readSlot (slotted_of_readPointee mem t) first)
      (slottedRow_of_readFieldsAt mem fields base values rest)

end

/-- What a word stands for holds jigs at slots only. -/
theorem slotted_of_lift {word : UInt64} (read : t.lift mem word = .ok v) : t.Slotted v := by
  unfold lift at read
  split at read
  case h_10 => exact slotted_of_readPointee mem t _ v read
  all_goals
    cases read
    exact nofun

/-- The arguments in a blob hold jigs at slots of the parameters only. -/
theorem slottedRow_of_readArgs {blob : UInt32} (read : readArgs mem fields blob = .ok values) :
    SlottedRow fields values := by
  unfold readArgs at read
  split at read
  · cases read
    exact slottedRow_nil
  split at read
  · cases read
  obtain ⟨length, -, read⟩ := bind_eq_ok.1 read
  dsimp only at read
  split at read
  · cases read
  · exact slottedRow_of_readFieldsAt mem fields _ values read

/-! ### Decoded values -/

section Decoded

open Wire

variable {α κ ν : Type} {input rest : Bytes}

/-- Each of the items that were read has been read somewhere. -/
theorem forall_of_readMany {item : Reader α} {P : α → Prop}
    (each : ∀ input a rest, item input = .ok (a, rest) → P a) :
    ∀ {n : Nat} {input rest : Bytes} {items : List α},
      readMany item n input = .ok (items, rest) → ∀ a ∈ items, P a
  | 0, _, _, _, read => by
    obtain ⟨rfl, -⟩ := read_pure_eq_ok.1 read
    exact nofun
  | n + 1, _, _, _, read => by
    obtain ⟨a, _, here, more⟩ := read_bind_eq_ok.1 read
    obtain ⟨others, _, later, last⟩ := read_bind_eq_ok.1 more
    obtain ⟨rfl, -⟩ := read_pure_eq_ok.1 last
    exact List.forall_mem_cons.2 ⟨each _ _ _ here, forall_of_readMany each later⟩

/-- Each of the entries that were read has a key and a value that have been read somewhere. -/
theorem forall_of_readEntries {key : Reader κ} {value : Reader ν} {P : κ → Prop} {Q : ν → Prop}
    (ofKey : ∀ input k rest, key input = .ok (k, rest) → P k)
    (ofValue : ∀ input v rest, value input = .ok (v, rest) → Q v) :
    ∀ {n : Nat} {previous : Option Bytes} {input rest : Bytes} {entries : List (κ × ν)},
      readEntries key value n previous input = .ok (entries, rest) →
        ∀ e ∈ entries, P e.1 ∧ Q e.2
  | 0, _, _, _, _, read => by
    obtain ⟨rfl, -⟩ := read_pure_eq_ok.1 read
    exact nofun
  | n + 1, _, _, _, _, read => by
    obtain ⟨⟨k, span⟩, _, here, more⟩ := read_bind_eq_ok.1 read
    obtain ⟨⟨k, _⟩, keyed, spanned⟩ := bind_eq_ok.1 here
    cases spanned
    dsimp only at more
    split at more
    · cases more
    · obtain ⟨v, _, there, more⟩ := read_bind_eq_ok.1 more
      obtain ⟨others, _, later, last⟩ := read_bind_eq_ok.1 more
      obtain ⟨rfl, -⟩ := read_pure_eq_ok.1 last
      exact List.forall_mem_cons.2 ⟨⟨ofKey _ _ _ keyed, ofValue _ _ _ there⟩,
        forall_of_readEntries ofKey ofValue later⟩

mutual

/-- What bytes are read as holds jigs at slots only. -/
theorem slotted_of_read : ∀ (t : Ty) (input : Bytes) (v : Value) (rest : Bytes),
    t.read input = .ok (v, rest) → t.Slotted v
  | .nullable t, input, v, rest, read => by
    obtain ⟨tag, _, -, more⟩ := read_bind_eq_ok.1 read
    split at more
    · obtain ⟨rfl, -⟩ := read_pure_eq_ok.1 more
      exact nofun
    · split at more
      · exact (slotted_of_read t _ v rest more).nullable
      · cases more
  | .array t, input, v, rest, read => by
    obtain ⟨n, _, -, more⟩ := read_bind_eq_ok.1 read
    obtain ⟨items, _, all, last⟩ := read_bind_eq_ok.1 more
    obtain ⟨rfl, -⟩ := read_pure_eq_ok.1 last
    exact slotted_array (forall_of_readMany (slotted_of_read t) all)
  | .map k t, input, v, rest, read => by
    obtain ⟨n, _, -, more⟩ := read_bind_eq_ok.1 read
    obtain ⟨entries, _, all, last⟩ := read_bind_eq_ok.1 more
    obtain ⟨rfl, -⟩ := read_pure_eq_ok.1 last
    exact slotted_map (forall_of_readEntries (slotted_of_read k) (slotted_of_read t) all)
  | .object name fields size, input, v, rest, read => by
    obtain ⟨values, _, all, last⟩ := read_bind_eq_ok.1 read
    obtain ⟨rfl, -⟩ := read_pure_eq_ok.1 last
    exact (slottedRow_of_readFields fields _ values _ all).object
  | .jig demand, input, v, rest, read => by
    obtain ⟨origin, _, -, last⟩ := read_bind_eq_ok.1 read
    obtain ⟨rfl, -⟩ := read_pure_eq_ok.1 last
    exact slotted_jig
  | .bool, input, v, rest, read | .u8, input, v, rest, read | .u16, input, v, rest, read
  | .u32, input, v, rest, read | .u64, input, v, rest, read | .i8, input, v, rest, read
  | .i16, input, v, rest, read | .i32, input, v, rest, read | .i64, input, v, rest, read
  | .string, input, v, rest, read | .bytes, input, v, rest, read => by
    obtain ⟨_, _, -, last⟩ := read_bind_eq_ok.1 read
    obtain ⟨rfl, -⟩ := read_pure_eq_ok.1 last
    exact nofun

/-- The same for the values of all fields. -/
theorem slottedRow_of_readFields : ∀ (fields : List Field) (input : Bytes) (values : List Value)
    (rest : Bytes), readFields fields input = .ok (values, rest) → SlottedRow fields values
  | [], _, _, _, read => by
    obtain ⟨rfl, -⟩ := read_pure_eq_ok.1 read
    exact slottedRow_nil
  | ⟨_, t, _⟩ :: fields, _, _, _, read => by
    obtain ⟨v, _, here, more⟩ := read_bind_eq_ok.1 read
    obtain ⟨values, _, later, last⟩ := read_bind_eq_ok.1 more
    obtain ⟨rfl, -⟩ := read_pure_eq_ok.1 last
    exact .cons (slotted_of_read t _ v _ here) (slottedRow_of_readFields fields _ values _ later)

end

theorem fieldsContainJig_of_getElem? {idx : Nat} {f : Field} (here : fields[idx]? = some f)
    (jig : f.ty.containsJig = true) : fieldsContainJig fields = true := by
  induction fields generalizing idx with
  | nil => cases here
  | cons g fields ih =>
    rw [fieldsContainJig, Bool.or_eq_true]
    cases idx with
    | zero =>
      cases here
      exact .inl jig
    | succ idx => exact .inr (ih here)

/-- A type with a slot for a jig says so. -/
theorem Slot.containsJig (h : t.Slot v path origin demand) : t.containsJig = true := by
  induction h with
  | jig => rfl
  | nullable _ ih => exact ih
  | item _ _ ih => exact ih
  | key _ _ ih => simp [Ty.containsJig, ih]
  | value _ _ ih => simp [Ty.containsJig, ih]
  | field field _ _ ih => exact fieldsContainJig_of_getElem? field ih

/-- Bytes do not become a jig at a type that is said to hold none. -/
theorem not_names_of_decode {bs : Bytes} (jigless : t.containsJig = false)
    (decoded : t.decode bs = .ok v) (path : List Step) (origin : Pointer) :
    ¬ v.Names path origin := by
  intro names
  have slotted : t.Slotted v := by
    unfold decode at decoded
    split at decoded <;> cases decoded
    exact slotted_of_read t bs v [] ‹_›
  obtain ⟨demand, slot⟩ := slotted path origin names
  rw [slot.containsJig] at jigless
  cases jigless

end Decoded

end Ty

end JigLedger
