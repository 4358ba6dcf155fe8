import JigLedger.Json.Record
import JigLedger.Proofs.Json.Text
import Mathlib.Data.List.Forall2

/-!
# Records are read back, and nesting

How deep arrays and objects stand inside each other is all that keeps a value of texts and finite
numbers from being sound. A record whose members have the names of its fields is read as the values
of these members.
-/

namespace JigLedger

/-! ### Lists that are read item by item -/

section Items

variable {α β : Type} {f : α → Option β} {items : List α} {results : List β}

/-- A list is read when each of its items is. -/
theorem mapM_eq_some :
    items.mapM f = some results ↔ List.Forall₂ (fun a b => f a = some b) items results := by
  induction items generalizing results with
  | nil => simp [eq_comm]
  | cons a rest ih =>
    simp only [List.mapM_cons, Option.bind_eq_bind, Option.bind_eq_some_iff, ih]
    constructor
    · rintro ⟨b, here, bs, others, ⟨⟩⟩
      exact .cons here others
    · rintro (_ | ⟨here, others⟩)
      exact ⟨_, here, _, others, rfl⟩

theorem exists_of_mapM_eq_some (h : items.mapM f = some results) {b : β} (mem : b ∈ results) :
    ∃ a ∈ items, f a = some b := by
  have pairs := mapM_eq_some.1 h
  clear h
  induction pairs with
  | nil => cases mem
  | cons here _ ih =>
    rcases List.mem_cons.1 mem with rfl | mem
    · exact ⟨_, .head _, here⟩
    · obtain ⟨a, ha, h⟩ := ih mem
      exact ⟨a, .tail _ ha, h⟩

end Items

namespace Json

/-! ### Nesting -/

mutual

/-- How many arrays and objects stand inside each other. -/
def nesting : Json → Nat
  | .array items => itemNesting items + 1
  | .object members => memberNesting members + 1
  | _ => 0

/-- How many stand inside each other in the items of an array. -/
def itemNesting : List Json → Nat
  | [] => 0
  | j :: rest => max (nesting j) (itemNesting rest)

/-- How many stand inside each other in the members of an object. -/
def memberNesting : List (Option String × Json) → Nat
  | [] => 0
  | (_, j) :: rest => max (nesting j) (memberNesting rest)

end

variable {n : Nat} {items : List Json} {members : List (String × Json)}

@[simp] theorem nesting_text (s : String) : (text s).nesting = 0 := rfl

@[simp] theorem nesting_bool (b : Bool) : (bool b).nesting = 0 := rfl

@[simp] theorem nesting_nat (k : Nat) : (nat k).nesting = 0 := rfl

theorem itemNesting_le_iff : itemNesting items ≤ n ↔ ∀ j ∈ items, j.nesting ≤ n := by
  induction items with
  | nil => simp [itemNesting]
  | cons j items ih => rw [itemNesting, Nat.max_le, ih, List.forall_mem_cons]

theorem memberNesting_le_iff {members : List (Option String × Json)} :
    memberNesting members ≤ n ↔ ∀ m ∈ members, m.2.nesting ≤ n := by
  induction members with
  | nil => simp [memberNesting]
  | cons m members ih => rw [memberNesting, Nat.max_le, ih, List.forall_mem_cons]

theorem nesting_array_le_iff :
    (array items).nesting ≤ n + 1 ↔ ∀ j ∈ items, j.nesting ≤ n := by
  rw [nesting, Nat.add_le_add_iff_right, itemNesting_le_iff]

theorem nesting_ofMembers_le_iff :
    (ofMembers members).nesting ≤ n + 1 ↔ ∀ m ∈ members, m.2.nesting ≤ n := by
  rw [ofMembers, nesting, Nat.add_le_add_iff_right, memberNesting_le_iff, List.forall_mem_map]

theorem nesting_le_of_mem_array (h : (array items).nesting ≤ n) : ∀ j ∈ items, j.nesting ≤ n := by
  cases n with
  | zero => cases h
  | succ n => exact fun j mem => Nat.le_succ_of_le (nesting_array_le_iff.1 h j mem)

theorem nesting_le_of_mem_ofMembers (h : (ofMembers members).nesting ≤ n) :
    ∀ m ∈ members, m.2.nesting ≤ n := by
  cases n with
  | zero => cases h
  | succ n => exact fun m mem => Nat.le_succ_of_le (nesting_ofMembers_le_iff.1 h m mem)

theorem areSound_iff : areSound n items = true ↔ ∀ j ∈ items, j.isSound n = true := by
  induction items with
  | nil => simp [areSound]
  | cons j items ih => rw [areSound, Bool.and_eq_true, ih, List.forall_mem_cons]

theorem membersSound_iff {members : List (Option String × Json)} : membersSound n members = true ↔
    ∀ m ∈ members, m.1.isSome = true ∧ m.2.isSound n = true := by
  induction members with
  | nil => simp [membersSound]
  | cons m members ih =>
    rw [membersSound, Bool.and_eq_true, Bool.and_eq_true, ih, List.forall_mem_cons]

/-- A value of texts and finite numbers is sound as far as it is nested. -/
theorem Consists.isSound_iff {j : Json} (h : j.Consists fun k => k.isFinite = true) :
    j.isSound n = true ↔ j.nesting ≤ n := by
  induction h generalizing n with
  | null => exact iff_of_true rfl n.zero_le
  | bool b => exact iff_of_true rfl n.zero_le
  | number finite => simpa [isSound, nesting] using finite
  | text s => exact iff_of_true rfl n.zero_le
  | array each ih =>
    cases n with
    | zero => simp [isSound, nesting]
    | succ n =>
      rw [isSound, areSound_iff, nesting_array_le_iff]
      exact forall₂_congr fun j mem => ih j mem
  | object each ih =>
    cases n with
    | zero => simp [ofMembers, isSound, nesting]
    | succ n =>
      rw [nesting_ofMembers_le_iff, ofMembers, isSound, membersSound_iff, List.forall_mem_map]
      exact forall₂_congr fun m mem => by simp [ih m mem]

/-- A list that is written item by item is made of values if each item is. -/
theorem Consists.list {α : Type} {allowed : Number → Prop} {write : α → Json} {xs : List α}
    (each : ∀ x ∈ xs, (write x).Consists allowed) : Consists allowed (.array (xs.map write)) :=
  .array (List.forall_mem_map.2 each)

/-! ### Records -/

theorem filter_name_eq (distinct : (members.map (·.1)).Nodup) {m : String × Json}
    (mem : m ∈ members) : members.filter (fun k => k.1 = m.1) = [m] := by
  induction members with
  | nil => cases mem
  | cons k members ih =>
    obtain ⟨fresh, distinct⟩ := List.nodup_cons.1 distinct
    rcases List.mem_cons.1 mem with rfl | mem
    · have others : members.filter (fun k => k.1 = m.1) = [] :=
        List.filter_eq_nil_iff.2 fun k mem same =>
          fresh (List.mem_map.2 ⟨k, mem, of_decide_eq_true same⟩)
      rw [List.filter_cons_of_pos (by simp), others]
    · have other : k.1 ≠ m.1 := fun same => fresh (List.mem_map.2 ⟨m, mem, same.symm⟩)
      rw [List.filter_cons_of_neg (by simpa using other), ih distinct mem]

/-- Members of different names are found by their names. -/
theorem member?_of_mem (members : List (String × Json)) (distinct : (members.map (·.1)).Nodup)
    {m : String × Json} (mem : m ∈ members) :
    member? (members.map fun m => (some m.1, m.2)) m.1 = some (some m.2) := by
  have only := filter_name_eq distinct mem
  have named : (members.map fun m => (some m.1, m.2)).filter (·.1 = some m.1) =
      [(some m.1, m.2)] := by
    rw [List.filter_map]
    simpa [Function.comp_def] using only
  rw [member?, named]

/-- A record whose members have the names of its fields is read as their values. -/
theorem fields?_ofMembers {names : List String} (named : members.map (·.1) = names)
    (distinct : names.Nodup) :
    fields? names (ofMembers members) = some (members.map fun m => some m.2) := by
  subst named
  rw [ofMembers, fields?, if_pos (by simp), mapM_eq_some, List.forall₂_map_left_iff,
    List.forall₂_map_right_iff, List.forall₂_same]
  exact fun m mem => member?_of_mem members distinct mem

@[simp] theorem text?_text (s : String) : text? (text s) = some s := rfl

@[simp] theorem bool?_bool (b : Bool) : bool? (bool b) = some b := rfl

@[simp] theorem orDefault_some {α : Type} (default : α) (read : Json → Option α) (j : Json) :
    orDefault default read (some j) = read j := rfl

@[simp] theorem nullable?_null {α : Type} (read : Json → Option α) :
    nullable? read null = some none := rfl

theorem nullable?_of_ne {α : Type} {read : Json → Option α} {j : Json} (some : j ≠ null) :
    nullable? read j = (read j).map .some := by
  cases j <;> first | rfl | exact absurd rfl some

/-- A list that is written item by item is read item by item. -/
theorem items?_map {α : Type} {read : Json → Option α} {write : α → Json} {xs : List α}
    (each : ∀ x ∈ xs, read (write x) = some x) : items? read (.array (xs.map write)) = some xs := by
  rw [items?, mapM_eq_some, List.forall₂_map_left_iff, List.forall₂_same]
  exact each

/-- A value that may be `null` or missing is read from the field if it is there. -/
theorem exists_of_nullable? {α : Type} {read : Json → Option α} {field : Option Json} {x : α}
    (h : orDefault none (nullable? read) field = some (some x)) :
    ∃ j, field = some j ∧ read j = some x := by
  rcases field with _ | j
  · cases h
  · refine ⟨j, rfl, ?_⟩
    cases j with
    | null => cases h
    | _ => simpa [nullable?] using h

/-- The value of a member is that of one of the members. -/
theorem mem_of_member? {members : List (Option String × Json)} {name : String} {value : Json}
    (h : member? members name = some (some value)) : ∃ m ∈ members, m.2 = value := by
  unfold member? at h
  split at h
  case h_2 m only =>
    cases h
    have mem : m ∈ members.filter (·.1 = some name) := only ▸ .head _
    exact ⟨m, List.mem_of_mem_filter mem, rfl⟩
  all_goals cases h

/-- The fields of a record are some of its items or members. -/
theorem mem_of_fields? {j : Json} {names : List String} {fields : List (Option Json)}
    (found : fields? names j = some fields) {field : Json} (mem : some field ∈ fields) :
    (∃ items, j = .array items ∧ field ∈ items) ∨
      ∃ members, j = .object members ∧ ∃ m ∈ members, m.2 = field := by
  unfold fields? at found
  split at found
  case h_1 members =>
    split at found
    case isFalse => cases found
    case isTrue =>
      obtain ⟨name, -, single⟩ := exists_of_mapM_eq_some found mem
      exact .inr ⟨members, rfl, mem_of_member? single⟩
  case h_2 items =>
    split at found
    case isFalse => cases found
    case isTrue =>
      cases found
      rcases List.mem_append.1 mem with mem | mem
      · obtain ⟨item, inside, same⟩ := List.mem_map.1 mem
        cases same
        exact .inl ⟨items, rfl, inside⟩
      · cases (List.mem_replicate.1 mem).2
  case h_3 => cases found

/-- A sound record is read from its fields, which are sound one level less deep. -/
theorem exists_fields {α : Type} {j : Json} {names : List String}
    {next : List (Option Json) → Option α} {x : α} (h : (fields? names j).bind next = some x)
    (sound : j.isSound n = true) : ∃ fields k, next fields = some x ∧ n = k + 1 ∧
      ∀ field ∈ fields, ∀ value ∈ field, value.isSound k = true := by
  obtain ⟨fields, found, h⟩ := Option.bind_eq_some_iff.1 h
  cases n with
  | zero =>
    cases j with
    | array => cases sound
    | object => cases sound
    | _ => cases found
  | succ k =>
    refine ⟨fields, k, h, rfl, ?_⟩
    rintro _ mem value rfl
    rcases mem_of_fields? found mem with ⟨items, rfl, inside⟩ | ⟨members, rfl, m, inside, rfl⟩
    · exact areSound_iff.1 sound value inside
    · exact (membersSound_iff.1 sound m inside).2

end Json

end JigLedger
