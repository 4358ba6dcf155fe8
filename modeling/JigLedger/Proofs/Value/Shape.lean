import JigLedger.Proofs.Value.Canonical

/-!
# Values that are accepted

A value is accepted for a type when it has the shape of the type and no map in it has a key twice or
a key that is too long to be encoded. The two conditions are kept apart here, because a value that
comes from a memory meets the first one without anybody having checked it.
-/

namespace JigLedger

/-- No such key can be encoded. -/
def Value.IsLong : Value → Prop
  | .string s => Wire.maxLength < (utf8 s).length
  | .bytes bs => Wire.maxLength < bs.length
  | _ => False

namespace Ty

/-- A value has the shape of a type, apart from what is demanded of the keys of maps. -/
inductive Shaped : Ty → Value → Prop
  | leaf {t : Ty} {x : Value} (plain : t.isLeaf = true) (h : t.check x = .ok ()) : Shaped t x
  | null {t : Ty} : Shaped (.nullable t) .null
  | nullable {t : Ty} {x : Value} (h : Shaped t x) : Shaped (.nullable t) x
  | array {t : Ty} {items : List Value} (h : ∀ x ∈ items, Shaped t x) :
      Shaped (.array t) (.array items)
  | map {k v : Ty} {entries : List (Value × Value)} (hk : ∀ e ∈ entries, Shaped k e.1)
      (hv : ∀ e ∈ entries, Shaped v e.2) : Shaped (.map k v) (.map entries)
  | object {name : String} {fields : List Field} {size : UInt32} {values : List Value}
      (few : fields.length = values.length)
      (h : ∀ (i : Nat) (f : Field) (x : Value), fields[i]? = some f → values[i]? = some x →
        Shaped f.ty x) : Shaped (.object name fields size) (.object values)

/-- Somewhere in a value there is a map that has a key twice or a key that is too long. -/
inductive Flawed : Ty → Value → Prop
  | twice {k v : Ty} {entries : List (Value × Value)} (h : ¬ (entries.map (·.1)).Nodup) :
      Flawed (.map k v) (.map entries)
  | long {k v : Ty} {entries : List (Value × Value)} {e : Value × Value} (mem : e ∈ entries)
      (h : e.1.IsLong) : Flawed (.map k v) (.map entries)
  | value {k v : Ty} {entries : List (Value × Value)} {e : Value × Value} (mem : e ∈ entries)
      (h : Flawed v e.2) : Flawed (.map k v) (.map entries)
  | item {t : Ty} {items : List Value} {x : Value} (mem : x ∈ items) (h : Flawed t x) :
      Flawed (.array t) (.array items)
  | nullable {t : Ty} {x : Value} (h : Flawed t x) : Flawed (.nullable t) x
  | field {name : String} {fields : List Field} {size : UInt32} {values : List Value} {i : Nat}
      {f : Field} {x : Value} (field : fields[i]? = some f) (here : values[i]? = some x)
      (h : Flawed f.ty x) : Flawed (.object name fields size) (.object values)

variable {t k v : Ty} {x : Value} {entries : List (Value × Value)} {fields : List Field}
  {values : List Value}

/-! ### Keys -/

/-- Byte strings are encoded unless they are too long. -/
theorem exists_write_bytes {bs : Bytes} :
    (∃ out, Wire.Codec.bytes.write bs = .ok out) ↔ bs.length ≤ Wire.maxLength := by
  change (∃ out, (Wire.writeLength bs.length >>= fun n => pure (n ++ bs)) = .ok out) ↔ _
  unfold Wire.writeLength
  split
  case isTrue short => exact ⟨fun _ => short, fun _ => ⟨_, rfl⟩⟩
  case isFalse long => exact ⟨(fun ⟨_, h⟩ => nomatch h), fun short => absurd short long⟩

/-- A key is encoded unless it is too long. -/
theorem exists_write_key (plain : k.isLeaf = true) (shape : k.check x = .ok ()) :
    (∃ bs, k.write x = .ok bs) ↔ ¬ x.IsLong := by
  cases k <;> try cases plain
  case string | bytes =>
    cases x <;> try cases shape
    exact exists_write_bytes.trans Nat.not_lt.symm
  all_goals
    cases x <;> try cases shape
    exact ⟨fun _ => id, fun _ => ⟨_, rfl⟩⟩

theorem write_bytesOf (h : ∃ bs, k.write x = .ok bs) : k.write x = .ok (k.bytesOf x) := by
  obtain ⟨bs, h⟩ := h
  rw [bytesOf, h]
  rfl

/-- Keys with the same encoding are the same. -/
theorem bytesOf_injective {y : Value} (plain : k.isLeaf = true) (hx : k.check x = .ok ())
    (hy : k.check y = .ok ()) (wx : k.write x = .ok (k.bytesOf x))
    (wy : k.write y = .ok (k.bytesOf y)) (same : k.bytesOf x = k.bytesOf y) : x = y := by
  obtain ⟨α, c, wrap, codec⟩ := exists_hasCodec plain
  obtain ⟨a, rfl⟩ := (codec.check x).1 hx
  obtain ⟨b, rfl⟩ := (codec.check y).1 hy
  rw [codec.write] at wx wy
  rw [← same] at wy
  rw [codec.codec.faithful.injective wx wy]

/-- Every key of a map that is accepted has been encoded. -/
theorem written_of_check {u : Ty} {ofKey ofValue : Value → Except ValueError Unit}
    {seen : List Bytes} (h : checkEntries u k ofKey ofValue seen entries = .ok ()) :
    ∀ e ∈ entries, k.write e.1 = .ok (k.bytesOf e.1) := by
  induction entries generalizing seen with
  | nil => exact nofun
  | cons e rest ih =>
    obtain ⟨key, value⟩ := e
    obtain ⟨_, -, h⟩ := bind_eq_ok.1 h
    obtain ⟨_, -, h⟩ := bind_eq_ok.1 h
    split at h
    case h_1 => cases h
    case h_2 encoded written =>
      split at h
      case isTrue => cases h
      case isFalse => exact List.forall_mem_cons.2 ⟨write_bytesOf ⟨_, written⟩, ih h⟩

/-- A map is accepted if its keys and its values are, no key is too long and none is there twice. -/
theorem check_map (plain : k.isLeaf = true) : (map k v).check (.map entries) = .ok () ↔
    (∀ e ∈ entries, k.check e.1 = .ok () ∧ v.check e.2 = .ok ()) ∧
      (∀ e ∈ entries, ¬ e.1.IsLong) ∧ (entries.map (·.1)).Nodup := by
  have pairs (written : ∀ e ∈ entries, k.write e.1 = .ok (k.bytesOf e.1)) :
      List.Forall₂ (fun entry (e : Bytes × Bytes) => k.write entry.1 = .ok e.1) entries
        (entries.map fun e => (k.bytesOf e.1, [])) :=
    List.forall₂_map_right_iff.2 (List.forall₂_same.2 written)
  have keys : (entries.map fun e => (k.bytesOf e.1, ([] : Bytes))).map (·.1) =
      (entries.map (·.1)).map k.bytesOf := by
    rw [List.map_map, List.map_map]
    rfl
  constructor
  case mp =>
    intro shape
    have written := written_of_check shape
    obtain ⟨parts, distinct, -⟩ := (checkEntries_eq_ok (pairs written)).1 shape
    rw [keys] at distinct
    exact ⟨parts, fun e mem => (exists_write_key plain (parts e mem).1).1 ⟨_, written e mem⟩,
      distinct.of_map⟩
  case mpr =>
    rintro ⟨parts, short, distinct⟩
    have written : ∀ e ∈ entries, k.write e.1 = .ok (k.bytesOf e.1) := fun e mem =>
      write_bytesOf ((exists_write_key plain (parts e mem).1).2 (short e mem))
    refine (checkEntries_eq_ok (pairs written)).2 ⟨parts, ?_, fun _ _ => List.not_mem_nil⟩
    rw [keys]
    refine distinct.map_on fun a ha b hb same => ?_
    obtain ⟨e, he, rfl⟩ := List.mem_map.1 ha
    obtain ⟨e', he', rfl⟩ := List.mem_map.1 hb
    exact bytesOf_injective plain (parts e he).1 (parts e' he').1 (written e he) (written e' he')
      same

/-! ### Values -/

theorem check_array {items : List Value} :
    (array t).check (.array items) = .ok () ↔ ∀ x ∈ items, t.check x = .ok () := by
  rw [check, forM_eq_ok]

theorem checkFields_eq_ok (few : fields.length = values.length) :
    checkFields fields values = .ok () ↔ ∀ (i : Nat) (f : Field) (x : Value),
      fields[i]? = some f → values[i]? = some x → f.ty.check x = .ok () := by
  induction fields generalizing values with
  | nil => exact ⟨(fun _ _ _ _ field => nomatch field), fun _ => rfl⟩
  | cons f rest ih =>
    obtain ⟨x, more, rfl⟩ := List.exists_cons_of_length_eq_add_one few.symm
    rw [checkFields, bind_eq_ok]
    constructor
    case mp =>
      rintro ⟨_, first, others⟩ (_ | i) g y field here
      · cases field
        cases here
        exact first
      · exact (ih (Nat.succ.inj few)).1 others i g y field here
    case mpr =>
      exact fun h => ⟨(), h 0 f x rfl rfl, (ih (Nat.succ.inj few)).2 fun i => h (i + 1)⟩

theorem check_object {name : String} {size : UInt32} :
    (object name fields size).check (.object values) = .ok () ↔ fields.length = values.length ∧
      ∀ (i : Nat) (f : Field) (x : Value), fields[i]? = some f → values[i]? = some x →
        f.ty.check x = .ok () := by
  rw [check]
  by_cases few : fields.length = values.length
  · rw [if_pos few, checkFields_eq_ok few, and_iff_right few]
  · rw [if_neg few]
    exact iff_of_false (by rintro ⟨⟩) fun h => few h.1

/-- A flaw is not in null. -/
theorem Flawed.ne_null (h : t.Flawed x) : x ≠ .null := by
  induction h with
  | nullable _ ih => exact ih
  | _ => exact nofun

/-- No flawed value is accepted. -/
theorem Flawed.not_check (h : t.Flawed x) (proper : t.Proper) : t.check x ≠ .ok () := by
  intro shape
  induction h with
  | twice h =>
    cases proper with
    | leaf plain => cases plain
    | map plain _ => exact h ((check_map plain).1 shape).2.2
  | long mem h =>
    cases proper with
    | leaf plain => cases plain
    | map plain _ => exact ((check_map plain).1 shape).2.1 _ mem h
  | value mem _ ih =>
    cases proper with
    | leaf plain => cases plain
    | map plain proper => exact ih proper (((check_map plain).1 shape).1 _ mem).2
  | item mem _ ih =>
    cases proper with
    | leaf plain => cases plain
    | array proper => exact ih proper (check_array.1 shape _ mem)
  | nullable h ih =>
    cases proper with
    | leaf plain => cases plain
    | nullable _ proper => exact ih proper (check_nullable h.ne_null ▸ shape)
  | @field name fields size values i f x field here _ ih =>
    cases proper with
    | leaf plain => cases plain
    | object _ proper =>
      exact ih (proper f (List.mem_of_getElem? field)) ((check_object.1 shape).2 i f x field here)

theorem Shaped.check_of_isLeaf (h : t.Shaped x) (plain : t.isLeaf = true) : t.check x = .ok () := by
  cases h with
  | leaf _ h => exact h
  | _ => cases plain

/-- A value that has the shape of a type is accepted if there is no flaw in it. -/
theorem Shaped.check (h : t.Shaped x) (proper : t.Proper) (sound : ¬ t.Flawed x) :
    t.check x = .ok () := by
  induction h with
  | leaf _ h => exact h
  | null => rfl
  | @nullable t x _ ih =>
    cases proper with
    | leaf plain => cases plain
    | nullable _ proper =>
      by_cases absent : x = .null
      · rw [absent]
        rfl
      · rw [check_nullable absent]
        exact ih proper fun flawed => sound (.nullable flawed)
  | array _ ih =>
    cases proper with
    | leaf plain => cases plain
    | array proper =>
      exact check_array.2 fun x mem => ih x mem proper fun flawed => sound (.item mem flawed)
  | map hk _ _ ih =>
    cases proper with
    | leaf plain => cases plain
    | map plain proper =>
      refine (check_map plain).2 ⟨fun e mem => ⟨(hk e mem).check_of_isLeaf plain, ?_⟩,
        fun e mem long => sound (.long mem long), by_contra fun twice => sound (.twice twice)⟩
      exact ih e mem proper fun flawed => sound (.value mem flawed)
  | object few _ ih =>
    cases proper with
    | leaf plain => cases plain
    | object _ proper =>
      refine check_object.2 ⟨few, fun i f x field here => ?_⟩
      exact ih i f x field here (proper f (List.mem_of_getElem? field))
        fun flawed => sound (.field field here flawed)

/-- A value that is accepted has the shape of its type. -/
theorem shaped_of_check (proper : t.Proper) (h : t.check x = .ok ()) : t.Shaped x := by
  induction proper generalizing x with
  | leaf plain => exact .leaf plain h
  | array _ ih =>
    cases x <;> try cases h
    exact .array fun x mem => ih (check_array.1 h x mem)
  | map plain _ ih =>
    cases x <;> try cases h
    have parts := ((check_map plain).1 h).1
    exact .map (fun e mem => .leaf plain (parts e mem).1) fun e mem => ih (parts e mem).2
  | nullable _ _ ih =>
    by_cases absent : x = .null
    · rw [absent]
      exact .null
    · exact .nullable (ih (check_nullable absent ▸ h))
  | object _ _ ih =>
    cases x <;> try cases h
    obtain ⟨few, parts⟩ := check_object.1 h
    exact .object few fun i f x field here =>
      ih f (List.mem_of_getElem? field) (parts i f x field here)

/-- What is accepted are the values that have the shape of the type and no flaw. -/
theorem check_eq_ok_iff (proper : t.Proper) :
    t.check x = .ok () ↔ t.Shaped x ∧ ¬ t.Flawed x :=
  ⟨fun h => ⟨shaped_of_check proper h, fun flawed => flawed.not_check proper h⟩,
    fun h => h.1.check proper h.2⟩

/-- Every value of a row that is encoded has been accepted. -/
theorem check_of_encodesRow {types : List Ty} {bs : Bytes} {i : Nat}
    (encoded : EncodesRow types values bs) (type : types[i]? = some t)
    (here : values[i]? = some x) : t.check x = .ok () := by
  induction types generalizing values bs i with
  | nil => cases type
  | cons u types ih =>
    cases values with
    | nil => cases here
    | cons y values =>
      obtain ⟨first, others, encoded, rest, -⟩ := encoded
      cases i with
      | zero =>
        cases type
        cases here
        exact encoded.check
      | succ i => exact ih rest type here

end Ty

end JigLedger
