import JigLedger.Proofs.Abi
import JigLedger.Proofs.Wire.Canonical
import JigLedger.Value.Check
import Mathlib

/-!
# The encoding of states is canonical

The bytes of a state and the values in it determine each other, up to the order of the entries of
maps: reading gives them in increasing order of their encoded keys, writing does not depend on
their order, and reading accepts nothing else than what writing produces. This holds of all types
that a document can declare. Each kind of type has its own lemma, and the induction on types puts
them together.
-/

namespace JigLedger

open Wire

/-! ### The order of entries -/

namespace Value

/-- The second value is the first one with the entries of one map, at any depth, in another
order. -/
inductive Reorders : Value → Value → Prop
  | entries {es es' : List (Value × Value)} (h : es.Perm es') : Reorders (.map es) (.map es')
  | item (before after : List Value) {v w : Value} (h : Reorders v w) :
      Reorders (.array (before ++ v :: after)) (.array (before ++ w :: after))
  | field (before after : List Value) {v w : Value} (h : Reorders v w) :
      Reorders (.object (before ++ v :: after)) (.object (before ++ w :: after))
  | key (before after : List (Value × Value)) {k k' : Value} (v : Value) (h : Reorders k k') :
      Reorders (.map (before ++ (k, v) :: after)) (.map (before ++ (k', v) :: after))
  | value (before after : List (Value × Value)) (k : Value) {v v' : Value} (h : Reorders v v') :
      Reorders (.map (before ++ (k, v) :: after)) (.map (before ++ (k, v') :: after))

/-- The second row is the first one with the entries of one map, at any depth, in another order. -/
inductive RowReorders : List Value → List Value → Prop
  | value (before after : List Value) {v w : Value} (h : Reorders v w) :
      RowReorders (before ++ v :: after) (before ++ w :: after)

end Value

namespace Ty

/-- The encoding of a value; nothing if it has none. -/
def bytesOf (t : Ty) (v : Value) : Bytes := (t.write v).toOption.getD []

/-- The entries of a map in increasing order of their encoded keys. -/
def sortByKey (k : Ty) (entries : List (Value × Value)) : List (Value × Value) :=
  entries.mergeSort fun a b => (compare (k.bytesOf a.1) (k.bytesOf b.1)).isLE

mutual

/-- A value with the entries of all maps in it, at every depth, in increasing order of their
encoded keys. -/
def arrange : Ty → Value → Value
  | array t, .array items => .array (items.map t.arrange)
  | map k v, .map entries =>
    .map ((sortByKey k entries).map fun e => (k.arrange e.1, v.arrange e.2))
  | nullable t, v => t.arrange v
  | object _ fields _, .object values => .object (arrangeFields fields values)
  | _, v => v

/-- The values of fields with the entries of all maps in order. -/
def arrangeFields : List Field → List Value → List Value
  | f :: fields, v :: values => f.ty.arrange v :: arrangeFields fields values
  | _, _ => []

end

/-- A row of values with the entries of all maps in order. -/
def arrangeRow : List Ty → List Value → List Value := List.zipWith arrange

/-! ### Values with their bytes -/

/-- The value has the shape of the type, and these are its bytes. -/
structure Encodes (t : Ty) (v : Value) (bs : Bytes) : Prop where
  check : t.check v = .ok ()
  write : t.write v = .ok bs

/-- The values have the shapes of the types, and these are their bytes, one after the other. -/
def EncodesRow : List Ty → List Value → Bytes → Prop
  | [], [], bs => bs = []
  | t :: types, v :: values, bs =>
    ∃ first others, t.Encodes v first ∧ EncodesRow types values others ∧ bs = first ++ others
  | _, _, _ => False

variable {t k v : Ty} {x : Value} {bs : Bytes}

theorem Encodes.bytesOf (h : t.Encodes x bs) : t.bytesOf x = bs := by
  rw [Ty.bytesOf, h.write]
  rfl

/-- Several values have the shape of a type if each of them does. -/
theorem forall₂_encodes {items : List Value} {chunks : List Bytes} :
    List.Forall₂ t.Encodes items chunks ↔
      (∀ a ∈ items, t.check a = .ok ()) ∧
        List.Forall₂ (fun a chunk => t.write a = .ok chunk) items chunks := by
  rw [← List.forall₂_and_left]
  exact ⟨.imp fun _ _ h => ⟨h.check, h.write⟩, .imp fun _ _ h => ⟨h.1, h.2⟩⟩

theorem encodes_array : (array t).Encodes x bs ↔ ∃ items chunks length, x = .array items ∧
    List.Forall₂ t.Encodes items chunks ∧ writeLength items.length = .ok length ∧
    bs = length ++ chunks.flatten := by
  constructor
  · rintro ⟨shape, written⟩
    cases x <;> try cases shape
    case array items =>
      simp only [check, forM_eq_ok] at shape
      simp only [write, bind_eq_ok, writeMany_eq_ok, pure, Except.pure, Except.ok.injEq] at written
      obtain ⟨length, hl, _, ⟨chunks, each, rfl⟩, rfl⟩ := written
      exact ⟨items, chunks, length, rfl, forall₂_encodes.2 ⟨shape, each⟩, hl, rfl⟩
  · rintro ⟨items, chunks, length, rfl, each, hl, rfl⟩
    obtain ⟨shape, each⟩ := forall₂_encodes.1 each
    refine ⟨by simpa only [check, forM_eq_ok] using shape, ?_⟩
    simp only [write, bind_eq_ok, writeMany_eq_ok, pure, Except.pure, Except.ok.injEq]
    exact ⟨length, hl, _, ⟨chunks, each, rfl⟩, rfl⟩

theorem check_nullable (h : x ≠ .null) : (nullable t).check x = t.check x := by
  cases x <;> first | rfl | exact absurd rfl h

theorem write_nullable (h : x ≠ .null) :
    (nullable t).write x = do return 1 :: (← t.write x) := by
  cases x <;> first | rfl | exact absurd rfl h

theorem encodes_nullable : (nullable t).Encodes x bs ↔
    (x = .null ∧ bs = [0]) ∨ (x ≠ .null ∧ ∃ inner, t.Encodes x inner ∧ bs = 1 :: inner) := by
  by_cases absent : x = .null
  · subst absent
    constructor
    · rintro ⟨-, written⟩
      cases written
      exact .inl ⟨rfl, rfl⟩
    · rintro (⟨-, rfl⟩ | ⟨present, -⟩)
      · exact ⟨rfl, rfl⟩
      · exact absurd rfl present
  · constructor
    · rintro ⟨shape, written⟩
      rw [check_nullable absent] at shape
      simp only [write_nullable absent, bind_eq_ok, pure, Except.pure, Except.ok.injEq] at written
      obtain ⟨inner, written, rfl⟩ := written
      exact .inr ⟨absent, inner, ⟨shape, written⟩, rfl⟩
    · rintro (⟨rfl, -⟩ | ⟨-, inner, ⟨shape, written⟩, rfl⟩)
      · exact absurd rfl absent
      · refine ⟨(check_nullable absent).trans shape, ?_⟩
        rw [write_nullable absent, written]
        rfl

/-- The entries of a map with their encodings. -/
def EncodesEntry (k v : Ty) (entry : Value × Value) (e : Bytes × Bytes) : Prop :=
  k.Encodes entry.1 e.1 ∧ v.Encodes entry.2 e.2

/-- Entries are accepted if each key and each value is and no two keys have the same bytes. -/
theorem checkEntries_eq_ok {u : Ty} {ofKey ofValue : Value → Except ValueError Unit}
    {entries : List (Value × Value)} {encoded : List (Bytes × Bytes)} {seen : List Bytes}
    (written : List.Forall₂ (fun entry e => k.write entry.1 = .ok e.1) entries encoded) :
    checkEntries u k ofKey ofValue seen entries = .ok () ↔
      (∀ entry ∈ entries, ofKey entry.1 = .ok () ∧ ofValue entry.2 = .ok ()) ∧
        (encoded.map (·.1)).Nodup ∧ ∀ e ∈ encoded, e.1 ∉ seen := by
  induction written generalizing seen with
  | nil => simp [checkEntries]
  | @cons entry e entries encoded here _ ih =>
    simp only [checkEntries, bind_eq_ok, here, List.forall_mem_cons, List.map_cons,
      List.nodup_cons]
    constructor
    · rintro ⟨_, key, _, value, more⟩
      split at more
      case isTrue => cases more
      case isFalse fresh =>
        obtain ⟨others, distinct, unseen⟩ := ih.1 more
        refine ⟨⟨⟨key, value⟩, others⟩, ⟨?_, distinct⟩, fresh, fun e he hs => ?_⟩
        · rw [List.mem_map]
          rintro ⟨e', mem, same⟩
          exact unseen e' mem (same ▸ .head _)
        · exact unseen e he (.tail _ hs)
    · rintro ⟨⟨⟨key, value⟩, others⟩, ⟨new, distinct⟩, fresh, unseen⟩
      refine ⟨(), key, (), value, ?_⟩
      rw [if_neg fresh]
      refine ih.2 ⟨others, distinct, fun e' mem hs => ?_⟩
      rcases List.mem_cons.1 hs with same | hs
      · exact new (List.mem_map.2 ⟨e', mem, same⟩)
      · exact unseen e' mem hs

/-- Every entry of a map that is accepted has been checked. -/
theorem entries_of_check {u k : Ty} {ofKey ofValue : Value → Except ValueError Unit}
    {entries : List (Value × Value)} {seen : List Bytes}
    (h : checkEntries u k ofKey ofValue seen entries = .ok ()) :
    ∀ e ∈ entries, ofKey e.1 = .ok () ∧ ofValue e.2 = .ok () := by
  induction entries generalizing seen with
  | nil => exact nofun
  | cons e rest ih =>
    obtain ⟨key, value⟩ := e
    simp only [checkEntries, bind_eq_ok] at h
    obtain ⟨_, ofKey, _, ofValue, h⟩ := h
    split at h
    · cases h
    · split at h
      · cases h
      · exact List.forall_mem_cons.2 ⟨⟨ofKey, ofValue⟩, ih h⟩

theorem encodes_map : (map k v).Encodes x bs ↔ ∃ entries encoded length, x = .map entries ∧
    List.Forall₂ (EncodesEntry k v) entries encoded ∧ (encoded.map (·.1)).Nodup ∧
    writeLength encoded.length = .ok length ∧
    bs = length ++ (sortEntries encoded).flatMap fun e => e.1 ++ e.2 := by
  have kept : ∀ encoded : List (Bytes × Bytes), (encoded.map (·.1)).Nodup →
      dropRepeats none (sortEntries encoded) = sortEntries encoded := by
    intro encoded distinct
    have perm : (sortEntries encoded).Perm encoded := List.mergeSort_perm _ _
    exact Codec.dropRepeats_of_nodup ((perm.map _).nodup_iff.2 distinct) nofun
  have size : ∀ encoded : List (Bytes × Bytes), (sortEntries encoded).length = encoded.length :=
    fun encoded => (List.mergeSort_perm _ _).length_eq
  constructor
  · rintro ⟨shape, written⟩
    cases x <;> try cases shape
    case map entries =>
      simp only [write, bind_eq_ok, mapM_eq_ok, writeEntries, pure, Except.pure,
        Except.ok.injEq] at written
      obtain ⟨encoded, each, length, hl, rfl⟩ := written
      have keys : List.Forall₂ (fun entry e => k.write entry.1 = .ok e.1) entries encoded := by
        refine each.imp ?_
        rintro entry e ⟨_, key, _, -, rfl⟩
        exact key
      obtain ⟨shapes, distinct, -⟩ := (checkEntries_eq_ok keys).1 shape
      rw [kept encoded distinct] at hl ⊢
      rw [size] at hl
      refine ⟨entries, encoded, length, rfl, ?_, distinct, hl, rfl⟩
      refine ((List.forall₂_and_left _ _).2 ⟨shapes, each⟩).imp ?_
      rintro entry e ⟨shape, _, key, _, value, rfl⟩
      exact ⟨⟨shape.1, key⟩, shape.2, value⟩
  · rintro ⟨entries, encoded, length, rfl, each, distinct, hl, rfl⟩
    have keys : List.Forall₂ (fun entry e => k.write entry.1 = .ok e.1) entries encoded :=
      each.imp fun _ _ h => h.1.write
    constructor
    · refine (checkEntries_eq_ok keys).2 ⟨?_, distinct, fun _ _ => List.not_mem_nil⟩
      have both : List.Forall₂ (fun entry e => (k.check entry.1 = .ok () ∧
          v.check entry.2 = .ok ()) ∧ EncodesEntry k v entry e) entries encoded :=
        each.imp fun _ _ h => ⟨⟨h.1.check, h.2.check⟩, h⟩
      exact ((List.forall₂_and_left _ _).1 both).1
    · simp only [write, bind_eq_ok, mapM_eq_ok, writeEntries, pure, Except.pure, Except.ok.injEq]
      refine ⟨encoded, each.imp fun entry e h => ⟨_, h.1.write, _, h.2.write, rfl⟩, length, ?_, ?_⟩
      · rwa [kept encoded distinct, size]
      · rw [kept encoded distinct]

/-! ### Rows -/

theorem checkFields_eq (fields : List Field) (values : List Value) :
    checkFields fields values = checkRow (fields.map (·.ty)) values := by
  induction fields generalizing values with
  | nil => rfl
  | cons f fields ih => cases values <;> simp [checkFields, checkRow, ih]

theorem writeFields_eq (fields : List Field) (values : List Value) :
    writeFields fields values = writeRow (fields.map (·.ty)) values := by
  induction fields generalizing values with
  | nil => rfl
  | cons f fields ih => cases values <;> simp [writeFields, writeRow, ih]

theorem readFields_eq (fields : List Field) :
    readFields fields = readRow (fields.map (·.ty)) := by
  induction fields with
  | nil => rfl
  | cons f fields ih => simp only [readFields, ih, List.map_cons, readRow]

theorem arrangeFields_eq (fields : List Field) (values : List Value) :
    arrangeFields fields values = arrangeRow (fields.map (·.ty)) values := by
  induction fields generalizing values with
  | nil => rfl
  | cons f fields ih => cases values <;> simp [arrangeFields, arrangeRow, ih]

/-- A row is accepted if there is a value for each type and each of them is accepted. -/
theorem encodesRow_iff {types : List Ty} {values : List Value} : EncodesRow types values bs ↔
    types.length = values.length ∧ checkRow types values = .ok () ∧
      writeRow types values = .ok bs := by
  induction types generalizing values bs with
  | nil => cases values <;> simp [EncodesRow, checkRow, writeRow, eq_comm]
  | cons t types ih =>
    cases values with
    | nil => simp [EncodesRow]
    | cons v values =>
      simp only [EncodesRow, ih, checkRow, writeRow, bind_eq_ok, pure, Except.pure,
        Except.ok.injEq, List.length_cons, Nat.add_right_cancel_iff]
      constructor
      · rintro ⟨first, others, here, ⟨size, shapes, written⟩, rfl⟩
        exact ⟨size, ⟨(), here.check, shapes⟩, first, here.write, others, written, rfl⟩
      · rintro ⟨size, ⟨_, shape, shapes⟩, first, here, others, written, rfl⟩
        exact ⟨first, others, ⟨shape, here⟩, ⟨size, shapes, written⟩, rfl⟩

theorem encodes_object {name : String} {fields : List Field} {size : UInt32} :
    (object name fields size).Encodes x bs ↔
      ∃ values, x = .object values ∧ EncodesRow (fields.map (·.ty)) values bs := by
  constructor
  · rintro ⟨shape, written⟩
    cases x <;> try cases shape
    case object values =>
      refine ⟨values, rfl, encodesRow_iff.2 ?_⟩
      simp only [check, write, checkFields_eq, writeFields_eq] at shape written
      split at shape
      case isTrue sized =>
        rw [if_pos sized] at written
        exact ⟨by rw [List.length_map, sized], shape, written⟩
      case isFalse => cases shape
  · rintro ⟨values, rfl, row⟩
    obtain ⟨sized, shapes, written⟩ := encodesRow_iff.1 row
    rw [List.length_map] at sized
    constructor
    · simp only [check, if_pos sized, checkFields_eq, shapes]
    · simp only [write, if_pos sized, writeFields_eq, written]

/-! ### Canonical types -/

/-- The values of a type and their bytes determine each other, up to the order of entries. -/
structure Canonical (t : Ty) : Prop where
  reads : ∀ {v : Value} {bs : Bytes}, t.Encodes v bs → Reads t.read bs (t.arrange v)
  exact : Exact t.read t.Encodes
  reorders : ∀ {v w : Value} {bs : Bytes}, t.Encodes v bs → v.Reorders w → t.Encodes w bs

/-- The values of a type are those of a canonical codec, and no value is made of others. -/
structure HasCodec {α : Type} (t : Ty) (c : Codec α) (wrap : α → Value) : Prop where
  codec : c.Canonical
  read : t.read = do return wrap (← c.read)
  write : ∀ a, t.write (wrap a) = c.write a
  check : ∀ v, t.check v = .ok () ↔ ∃ a, v = wrap a
  arrange : ∀ v, t.arrange v = v
  plain : ∀ a w, ¬ (wrap a).Reorders w

theorem exists_hasCodec (h : t.isLeaf = true) :
    ∃ (α : Type) (c : Codec α) (wrap : α → Value), t.HasCodec c wrap := by
  cases t
  case bool =>
    exact ⟨_, Codec.bool, .bool, Codec.canonical_bool, rfl, fun _ => rfl,
      fun v => by cases v <;> simp [check], fun _ => rfl, nofun⟩
  case u8 =>
    exact ⟨_, Codec.u8, .u8, Codec.canonical_u8, rfl, fun _ => rfl,
      fun v => by cases v <;> simp [check], fun _ => rfl, nofun⟩
  case u16 =>
    exact ⟨_, Codec.u16, .u16, Codec.canonical_u16, rfl, fun _ => rfl,
      fun v => by cases v <;> simp [check], fun _ => rfl, nofun⟩
  case u32 =>
    exact ⟨_, Codec.u32, .u32, Codec.canonical_u32, rfl, fun _ => rfl,
      fun v => by cases v <;> simp [check], fun _ => rfl, nofun⟩
  case u64 =>
    exact ⟨_, Codec.u64, .u64, Codec.canonical_u64, rfl, fun _ => rfl,
      fun v => by cases v <;> simp [check], fun _ => rfl, nofun⟩
  case i8 =>
    exact ⟨_, Codec.i8, .i8, Codec.canonical_i8, rfl, fun _ => rfl,
      fun v => by cases v <;> simp [check], fun _ => rfl, nofun⟩
  case i16 =>
    exact ⟨_, Codec.i16, .i16, Codec.canonical_i16, rfl, fun _ => rfl,
      fun v => by cases v <;> simp [check], fun _ => rfl, nofun⟩
  case i32 =>
    exact ⟨_, Codec.i32, .i32, Codec.canonical_i32, rfl, fun _ => rfl,
      fun v => by cases v <;> simp [check], fun _ => rfl, nofun⟩
  case i64 =>
    exact ⟨_, Codec.i64, .i64, Codec.canonical_i64, rfl, fun _ => rfl,
      fun v => by cases v <;> simp [check], fun _ => rfl, nofun⟩
  case string =>
    exact ⟨_, Codec.text, .string, Codec.canonical_text, rfl, fun _ => rfl,
      fun v => by cases v <;> simp [check], fun _ => rfl, nofun⟩
  case bytes =>
    exact ⟨_, Codec.bytes, .bytes, Codec.canonical_bytes, rfl, fun _ => rfl,
      fun v => by cases v <;> simp [check], fun _ => rfl, nofun⟩
  case jig demand =>
    exact ⟨_, Codec.pointer, .jig, Codec.canonical_pointer, rfl, fun _ => rfl,
      fun v => by cases v <;> simp [check], fun _ => rfl, nofun⟩
  all_goals cases h

/-- Types whose values hold no others are canonical. -/
theorem canonical_of_isLeaf (h : t.isLeaf = true) : t.Canonical := by
  obtain ⟨α, c, wrap, codec⟩ := exists_hasCodec h
  constructor
  · rintro v bs ⟨shape, written⟩
    obtain ⟨a, rfl⟩ := (codec.check v).1 shape
    rw [codec.write] at written
    intro rest
    rw [codec.read, codec.arrange, read_bind_of_ok (codec.codec.faithful a bs rest written)]
    rfl
  · intro input v rest read
    rw [codec.read] at read
    obtain ⟨a, next, here, last⟩ := read_bind_eq_ok.1 read
    obtain ⟨rfl, rfl⟩ := read_pure_eq_ok.1 last
    obtain ⟨bs, written, rfl⟩ := codec.codec.exact _ _ _ here
    exact ⟨bs, ⟨(codec.check _).2 ⟨a, rfl⟩, (codec.write a).trans written⟩, rfl⟩
  · rintro v w bs ⟨shape, -⟩ moved
    obtain ⟨a, rfl⟩ := (codec.check v).1 shape
    exact absurd moved (codec.plain a w)

/-- One of several values may be replaced by one with the same bytes. -/
theorem forall₂_replace {α β : Type} {R : α → β → Prop} {before after : List α} {a b : α}
    {results : List β} (h : List.Forall₂ R (before ++ a :: after) results)
    (same : ∀ r, R a r → R b r) : List.Forall₂ R (before ++ b :: after) results := by
  induction before generalizing results with
  | nil =>
    obtain _ | ⟨here, others⟩ := h
    exact .cons (same _ here) others
  | cons c before ih =>
    obtain _ | ⟨here, others⟩ := h
    exact .cons here (ih others)

theorem Canonical.array (h : t.Canonical) : (array t).Canonical := by
  constructor
  · intro v bs encoded
    obtain ⟨items, chunks, length, rfl, each, hl, rfl⟩ := encodes_array.1 encoded
    have read : List.Forall₂ (Reads t.read) chunks (items.map t.arrange) :=
      (List.forall₂_map_left_iff.2 (each.imp fun _ _ here => h.reads here)).flip
    have sized : (items.map t.arrange).length = items.length := List.length_map _
    have all := Reads.many read
    rw [sized] at all
    intro rest
    rw [List.append_assoc, Ty.read, read_bind_of_ok (readLength_append hl _),
      read_bind_of_ok (all rest)]
    rfl
  · intro input v rest read
    obtain ⟨n, next, counted, more⟩ := read_bind_eq_ok.1 read
    obtain ⟨items, next', all, last⟩ := read_bind_eq_ok.1 more
    obtain ⟨rfl, rfl⟩ := read_pure_eq_ok.1 last
    obtain ⟨length, hl, rfl⟩ := exact_readLength _ _ _ counted
    obtain ⟨_, ⟨rfl, chunks, each, rfl⟩, rfl⟩ := h.exact.many n _ _ _ all
    exact ⟨_, encodes_array.2 ⟨items, chunks, length, rfl, each, hl, rfl⟩,
      (List.append_assoc _ _ _).symm⟩
  · intro v w bs encoded moved
    obtain ⟨items, chunks, length, rfl, each, hl, rfl⟩ := encodes_array.1 encoded
    cases moved with
    | item before after moved =>
      refine encodes_array.2 ⟨_, chunks, length, rfl, ?_, ?_, rfl⟩
      · exact forall₂_replace each fun _ here => h.reorders here moved
      · simpa using hl

theorem Canonical.nullable (once : t.isNullable = false) (h : t.Canonical) :
    (nullable t).Canonical := by
  have present : ∀ v, t.check v = .ok () → v ≠ .null := by
    rintro v shape rfl
    cases t
    case nullable => cases once
    all_goals cases shape
  constructor
  · intro v bs encoded
    rcases encodes_nullable.1 encoded with ⟨rfl, rfl⟩ | ⟨some, inner, here, rfl⟩
    · have absent : (Ty.nullable t).arrange .null = .null := by
        cases t
        case nullable => cases once
        all_goals rfl
      rw [absent]
      exact fun rest => rfl
    · have same : (Ty.nullable t).arrange v = t.arrange v := by rw [Ty.arrange]
      intro rest
      rw [same]
      exact h.reads here rest
  · intro input v rest read
    obtain ⟨tag, next, tagged, more⟩ := read_bind_eq_ok.1 read
    rw [readByte_eq_ok] at tagged
    subst tagged
    split at more
    case isTrue zero =>
      obtain ⟨rfl, rfl⟩ := read_pure_eq_ok.1 more
      exact ⟨[0], encodes_nullable.2 (.inl ⟨rfl, rfl⟩), by rw [eq_of_beq zero]; rfl⟩
    case isFalse =>
      split at more
      case isTrue one =>
        obtain ⟨inner, here, rfl⟩ := h.exact _ _ _ more
        refine ⟨1 :: inner, encodes_nullable.2 (.inr ⟨present v here.check, inner, here, rfl⟩), ?_⟩
        rw [eq_of_beq one]
        rfl
      case isFalse => cases more
  · intro v w bs encoded moved
    rcases encodes_nullable.1 encoded with ⟨rfl, rfl⟩ | ⟨some, inner, here, rfl⟩
    · cases moved
    · have there := h.reorders here moved
      exact encodes_nullable.2 (.inr ⟨present w there.check, inner, there, rfl⟩)

/-- Sorting entries sorts their encodings. -/
theorem forall₂_sortByKey {entries : List (Value × Value)} {encoded : List (Bytes × Bytes)}
    (each : List.Forall₂ (EncodesEntry k v) entries encoded) :
    List.Forall₂ (EncodesEntry k v) (sortByKey k entries) (sortEntries encoded) := by
  let ofEntry := fun entry : Value × Value => (k.bytesOf entry.1, v.bytesOf entry.2)
  have bytes : encoded = entries.map ofEntry := by
    refine (List.forall₂_eq_eq_eq ▸ List.forall₂_map_left_iff.2 (each.imp ?_) :
      entries.map ofEntry = encoded).symm
    intro entry e here
    exact Prod.ext here.1.bytesOf here.2.bytesOf
  have sorted : sortEntries encoded = (sortByKey k entries).map ofEntry := by
    rw [bytes]
    have sorted := @List.map_mergeSort _ _
      (fun a b => (compare (k.bytesOf a.1) (k.bytesOf b.1)).isLE) (fun a b => (compare a.1 b.1).isLE)
      ofEntry entries fun _ _ _ _ => rfl
    exact sorted.symm
  have every : ∀ entry ∈ entries, EncodesEntry k v entry (ofEntry entry) := by
    rw [bytes, List.forall₂_map_right_iff, List.forall₂_same] at each
    exact each
  rw [sorted, List.forall₂_map_right_iff, List.forall₂_same]
  exact fun entry mem => every entry ((List.mergeSort_perm _ _).mem_iff.1 mem)

theorem Canonical.map (hk : k.Canonical) (hv : v.Canonical) : (map k v).Canonical := by
  constructor
  · intro x bs h
    obtain ⟨entries, encoded, length, rfl, each, distinct, hl, rfl⟩ := encodes_map.1 h
    have sorted := forall₂_sortByKey each
    have perm : (sortEntries encoded).Perm encoded := List.mergeSort_perm _ _
    have increasing := Codec.increasing_sortEntries ((perm.map _).nodup_iff.2 distinct)
    have arranged : List.Forall₂
        (fun e entry => Reads k.read e.1 entry.1 ∧ Reads v.read e.2 entry.2) (sortEntries encoded)
        ((sortByKey k entries).map fun e => (k.arrange e.1, v.arrange e.2)) :=
      (List.forall₂_map_left_iff.2 (sorted.imp fun _ _ here =>
        ⟨hk.reads here.1, hv.reads here.2⟩)).flip
    have count : ((sortByKey k entries).map fun e => (k.arrange e.1, v.arrange e.2)).length =
        encoded.length := by
      rw [← arranged.length_eq, perm.length_eq]
    have all := @Reads.entries _ _ _ _ _ _ arranged none increasing nofun
    rw [count] at all
    intro rest
    rw [List.append_assoc, Ty.read, read_bind_of_ok (readLength_append hl _),
      read_bind_of_ok (all rest)]
    rfl
  · intro input x rest read
    obtain ⟨n, next, counted, more⟩ := read_bind_eq_ok.1 read
    obtain ⟨entries, next', all, last⟩ := read_bind_eq_ok.1 more
    obtain ⟨rfl, rfl⟩ := read_pure_eq_ok.1 last
    obtain ⟨length, hl, rfl⟩ := exact_readLength _ _ _ counted
    obtain ⟨_, ⟨rfl, encoded, each, increasing, -, rfl⟩, rfl⟩ :=
      hk.exact.entries hv.exact n none _ _ _ all
    rw [each.length_eq] at hl
    have ordered := Codec.sortEntries_eq_self increasing
    refine ⟨_, encodes_map.2 ⟨entries, encoded, length, rfl, each, Codec.nodup_of_increasing increasing,
      hl, rfl⟩, ?_⟩
    rw [ordered, List.append_assoc]
  · intro x y bs h moved
    obtain ⟨entries, encoded, length, rfl, each, distinct, hl, rfl⟩ := encodes_map.1 h
    cases moved with
    | @entries _ entries' perm =>
      obtain ⟨encoded', each', moved⟩ := List.perm_comp_forall₂ perm.symm each
      have size : encoded'.length = encoded.length := moved.length_eq
      rw [Codec.sortEntries_eq_of_perm moved.symm distinct]
      exact encodes_map.2 ⟨entries', encoded', length, rfl, each',
        (moved.map _).nodup_iff.2 distinct, size ▸ hl, rfl⟩
    | key before after value moved =>
      refine encodes_map.2 ⟨_, encoded, length, rfl, ?_, distinct, hl, rfl⟩
      exact forall₂_replace each fun e here => ⟨hk.reorders here.1 moved, here.2⟩
    | value before after key moved =>
      refine encodes_map.2 ⟨_, encoded, length, rfl, ?_, distinct, hl, rfl⟩
      exact forall₂_replace each fun e here => ⟨here.1, hv.reorders here.2 moved⟩

/-! ### Canonical rows -/

theorem reads_row {types : List Ty} (h : ∀ t ∈ types, t.Canonical) {values : List Value}
    (encoded : EncodesRow types values bs) :
    Reads (readRow types) bs (arrangeRow types values) := by
  induction types generalizing values bs with
  | nil =>
    cases values <;> cases encoded
    exact .done []
  | cons t types ih =>
    cases values with
    | nil => cases encoded
    | cons v values =>
      obtain ⟨first, others, here, more, rfl⟩ := encoded
      obtain ⟨this, rest⟩ := List.forall_mem_cons.1 h
      have tail : Reads (readRow types >>= fun values => pure (t.arrange v :: values))
          (others ++ []) (t.arrange v :: arrangeRow types values) := (ih rest more).bind (.done _)
      rw [List.append_nil] at tail
      exact (this.reads here).bind tail

theorem exact_row {types : List Ty} (h : ∀ t ∈ types, t.Canonical) :
    Exact (readRow types) (EncodesRow types) := by
  induction types with
  | nil =>
    intro input values rest read
    obtain ⟨rfl, rfl⟩ := read_pure_eq_ok.1 read
    exact ⟨[], rfl, rfl⟩
  | cons t types ih =>
    intro input values rest read
    obtain ⟨this, others⟩ := List.forall_mem_cons.1 h
    obtain ⟨v, next, here, more⟩ := read_bind_eq_ok.1 read
    obtain ⟨values, next', tail, last⟩ := read_bind_eq_ok.1 more
    obtain ⟨rfl, rfl⟩ := read_pure_eq_ok.1 last
    obtain ⟨first, encoded, rfl⟩ := this.exact _ _ _ here
    obtain ⟨second, row, rfl⟩ := ih others _ _ _ tail
    exact ⟨first ++ second, ⟨first, second, encoded, row, rfl⟩, (List.append_assoc _ _ _).symm⟩

theorem encodesRow_of_reorders {types : List Ty} (h : ∀ t ∈ types, t.Canonical) {v w : Value}
    (moved : v.Reorders w) {before after : List Value}
    (encoded : EncodesRow types (before ++ v :: after) bs) :
    EncodesRow types (before ++ w :: after) bs := by
  induction types generalizing before bs with
  | nil => cases before <;> cases encoded
  | cons t types ih =>
    obtain ⟨this, rest⟩ := List.forall_mem_cons.1 h
    cases before with
    | nil =>
      obtain ⟨first, others, here, more, rfl⟩ := encoded
      exact ⟨first, others, this.reorders here moved, more, rfl⟩
    | cons u before =>
      obtain ⟨first, others, here, more, rfl⟩ := encoded
      exact ⟨first, others, here, ih rest more, rfl⟩

theorem Canonical.object {name : String} {fields : List Field} {size : UInt32}
    (h : ∀ f ∈ fields, f.ty.Canonical) : (object name fields size).Canonical := by
  have types : ∀ t ∈ fields.map (·.ty), t.Canonical := List.forall_mem_map.2 h
  constructor
  · intro v bs encoded
    obtain ⟨values, rfl, row⟩ := encodes_object.1 encoded
    intro rest
    rw [Ty.read, readFields_eq, Ty.arrange, arrangeFields_eq,
      read_bind_of_ok (reads_row types row rest)]
    rfl
  · intro input v rest read
    obtain ⟨values, next, row, last⟩ := read_bind_eq_ok.1 read
    obtain ⟨rfl, rfl⟩ := read_pure_eq_ok.1 last
    rw [readFields_eq] at row
    obtain ⟨bs, encoded, rfl⟩ := exact_row types _ _ _ row
    exact ⟨bs, encodes_object.2 ⟨values, rfl, encoded⟩, rfl⟩
  · intro v w bs encoded moved
    obtain ⟨values, rfl, row⟩ := encodes_object.1 encoded
    cases moved with
    | field before after moved =>
      exact encodes_object.2 ⟨_, rfl, encodesRow_of_reorders types moved row⟩

/-- The types that a document can declare are canonical. -/
theorem Proper.canonical (h : t.Proper) : t.Canonical := by
  induction h with
  | leaf plain => exact canonical_of_isLeaf plain
  | array _ ih => exact ih.array
  | map plain _ ih => exact (canonical_of_isLeaf plain).map ih
  | nullable once _ ih => exact ih.nullable once
  | object _ _ ih => exact .object ih

/-! ### States -/

theorem encodeState_eq_ok {types : List Ty} {row : List Value} :
    encodeState types row = .ok bs ↔ EncodesRow types row bs := by
  rw [encodesRow_iff, encodeState]
  by_cases sized : types.length = row.length
  · rw [if_neg (not_not.2 sized), bind_eq_ok]
    simp only [mapError_eq_ok]
    exact ⟨fun ⟨_, shapes, written⟩ => ⟨sized, shapes, written⟩,
      fun ⟨_, shapes, written⟩ => ⟨(), shapes, written⟩⟩
  · simp [sized]

theorem decodeState_eq_ok {types : List Ty} {row : List Value} :
    decodeState types bs = .ok row ↔ readRow types bs = .ok (row, []) := by
  rw [decodeState]
  split
  case h_1 values read => simp [read]
  case h_2 read => simp [read]
  case h_3 read => simp [read]

/-- The bytes of a row that is decoded are its encoding. -/
theorem encodesRow_of_decodeState {types : List Ty} (declared : ∀ t ∈ types, t.IsResolved)
    {row : List Value} (h : decodeState types bs = .ok row) :
    EncodesRow types row bs := by
  have canonical : ∀ t ∈ types, t.Canonical := by
    intro t mem
    obtain ⟨s, e, resolved⟩ := declared t mem
    exact (Abi.Scope.proper_type resolved).canonical
  obtain ⟨bs', encoded, same⟩ := exact_row canonical _ _ _ (decodeState_eq_ok.1 h)
  rw [List.append_nil] at same
  exact same ▸ encoded

/-- The encoding of states is canonical in both directions. For all rows of types that can be
declared: the bytes of a row are decoded to this row, the entries of all maps in it put in order;
they stay the same however the entries of maps in it are reordered; and all bytes that are decoded
are the encoding of the row that they are decoded to. -/
theorem encodeState_canonical {types : List Ty} (declared : ∀ t ∈ types, t.IsResolved) :
    (∀ row bs, encodeState types row = .ok bs →
      decodeState types bs = .ok (arrangeRow types row) ∧
      ∀ row', Relation.ReflTransGen Value.RowReorders row row' →
        encodeState types row' = .ok bs) ∧
    ∀ bs row, decodeState types bs = .ok row → encodeState types row = .ok bs := by
  have canonical : ∀ t ∈ types, t.Canonical := by
    intro t mem
    obtain ⟨s, e, resolved⟩ := declared t mem
    exact (Abi.Scope.proper_type resolved).canonical
  refine ⟨fun row bs encoded => ⟨?_, fun row' moved => ?_⟩, fun bs row decoded => ?_⟩
  · have read := reads_row canonical (encodeState_eq_ok.1 encoded) []
    rw [List.append_nil] at read
    exact decodeState_eq_ok.2 read
  · induction moved with
    | refl => exact encoded
    | tail _ step ih =>
      obtain ⟨before, after, moved⟩ := step
      exact encodeState_eq_ok.2 (encodesRow_of_reorders canonical moved (encodeState_eq_ok.1 ih))
  · exact encodeState_eq_ok.2 (encodesRow_of_decodeState declared decoded)

/-! ### A state with maps inside a map -/

namespace Stock

/-- How `Map<string, Map<u8, bool | null>>` is written. -/
def shelves : Abi.TypeExpr :=
  .mk "Map" false [.mk "string" false [],
    .mk "Map" false [.mk "u8" false [], .mk "bool" true []]]

/-- What it means: for each shelf, whether its places are taken, as far as this is known. -/
def types : List Ty := [.map .string (.map .u8 (.nullable .bool))]

/-- Two shelves and the places of one of them, in no particular order. -/
def row : List Value :=
  [.map [(.string "b", .map []), (.string "a", .map [(.u8 2, .null), (.u8 1, .bool true)])]]

/-- The shelves and places in order. -/
def ordered : List Value :=
  [.map [(.string "a", .map [(.u8 1, .bool true), (.u8 2, .null)]), (.string "b", .map [])]]

/-- The encoding of both. -/
def bytes : Bytes := [2, 1, 97, 2, 1, 1, 1, 2, 0, 1, 98, 0]

theorem isResolved : ∀ t ∈ types, t.IsResolved := by
  intro t mem
  obtain rfl := List.mem_singleton.1 mem
  exact ⟨⟨default, [], []⟩, shelves, by cbv⟩

end Stock

/-- Both maps of a state are put in order on the way through its encoding, and then stay in
order. -/
theorem encodeState_canonical_stock : (∀ t ∈ Stock.types, t.IsResolved) ∧
    encodeState Stock.types Stock.row = .ok Stock.bytes ∧
    decodeState Stock.types Stock.bytes = .ok Stock.ordered ∧
    encodeState Stock.types Stock.ordered = .ok Stock.bytes := by
  have canonical := encodeState_canonical Stock.isResolved
  have encoded : encodeState Stock.types Stock.row = .ok Stock.bytes := by cbv
  have arranged : arrangeRow Stock.types Stock.row = Stock.ordered := by cbv
  have decoded := (canonical.1 Stock.row Stock.bytes encoded).1
  rw [arranged] at decoded
  exact ⟨Stock.isResolved, encoded, decoded, canonical.2 Stock.bytes Stock.ordered decoded⟩

end Ty

end JigLedger
