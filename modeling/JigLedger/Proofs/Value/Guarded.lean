import JigLedger.Proofs.Layout
import JigLedger.Proofs.Memory
import JigLedger.Value.Guarded

/-!
# Guarded reading does not stop

Whatever stands in a memory, and wherever reading begins: no sum and no product of addresses
overflows, no byte outside of the memory is fetched, and the result is that of reading. What is
about to be read is always near to something that has been read before, or in a range that has been
checked, so it is enough that the memory ends eight bytes below the greatest address.
-/

namespace JigLedger

namespace Guarded

variable {α β : Type}

/-- Guarded work does not stop, and it has the given result. -/
def Follows (g : Guarded α) (x : Except MemoryError α) : Prop := g.run = some x

/-! ### Steps -/

theorem follows_pure (a : α) : Follows (pure a) (.ok a) := rfl

theorem follows_check (x : Except MemoryError α) : Follows (check x) x := rfl

theorem run_bind (g : Guarded α) (f : α → Guarded β) :
    (g >>= f).run = g.run.bind fun
      | .ok a => (f a).run
      | .error e => some (.error e) := by
  rw [ExceptT.run_bind]
  rcases g.run with _ | _ | _ <;> rfl

theorem Follows.bind {g : Guarded α} {x : Except MemoryError α} {f : α → Guarded β}
    {y : α → Except MemoryError β} (h : Follows g x)
    (hf : ∀ a, x = .ok a → Follows (f a) (y a)) : Follows (g >>= f) (x >>= y) := by
  rw [Follows, run_bind, h]
  rcases x with e | a
  · rfl
  · exact hf a rfl

/-- A step that gives a result has no counterpart in what is followed. -/
theorem Follows.after {g : Guarded α} {a : α} {f : α → Guarded β} {y : Except MemoryError β}
    (h : Follows g (.ok a)) (hf : Follows (f a) y) : Follows (g >>= f) y := by
  rw [Follows, run_bind, h]
  exact hf

/-- What succeeds goes through all its steps. -/
theorem exists_of_run_bind {g : Guarded α} {f : α → Guarded β} {b : β}
    (h : (g >>= f).run = some (.ok b)) : ∃ a, g.run = some (.ok a) ∧ (f a).run = some (.ok b) := by
  rw [run_bind] at h
  rcases hg : g.run with _ | _ | a <;> rw [hg] at h
  · cases h
  · cases h
  · exact ⟨a, rfl, h⟩

theorem Follows.mapM {f : α → Guarded β} {x : α → Except MemoryError β} {items : List α}
    (h : ∀ a ∈ items, Follows (f a) (x a)) : Follows (items.mapM f) (items.mapM x) := by
  induction items with
  | nil => exact follows_pure []
  | cons a rest ih =>
    obtain ⟨here, others⟩ := List.forall_mem_cons.1 h
    rw [List.mapM_cons, List.mapM_cons]
    exact here.bind fun b _ => (ih others).bind fun bs _ => follows_pure (b :: bs)

theorem follows_sum {a b : UInt32} (h : a.toNat + b.toNat < UInt32.size) :
    Follows (sum a b) (.ok (a + b)) := by
  rw [sum, if_pos h]
  exact follows_pure _

theorem follows_product {a b : UInt32} (h : a.toNat * b.toNat < UInt32.size) :
    Follows (product a b) (.ok (a * b)) := by
  rw [product, if_pos h]
  exact follows_pure _

/-- A sum that is not stopped is one of numbers. -/
theorem of_run_sum {a b c : UInt32} (h : (sum a b).run = some (.ok c)) :
    a.toNat + b.toNat < UInt32.size ∧ c = a + b := by
  unfold sum at h
  split at h
  case isTrue fits =>
    cases h
    exact ⟨fits, rfl⟩
  case isFalse => cases h

/-! ### Memory -/

variable {mem : LinearMemory} {address length : UInt32}

theorem follows_read (small : mem.size < UInt32.size) :
    Follows (read mem address length) (mem.read address length) := by
  refine (follows_check _).bind fun _ inside => ?_
  have inside := LinearMemory.checkRange_eq_ok.1 inside
  have fits : address.toNat + length.toNat < UInt32.size := by omega
  refine (follows_sum fits).after ?_
  rw [Layout.toNat_add_of_lt fits, Nat.add_sub_cancel_left]
  have bytes : Follows ((List.range' address.toNat length.toNat).mapM (byteAt mem))
      ((List.range' address.toNat length.toNat).mapM fun a => pure (mem.byte a)) := by
    refine .mapM fun a between => ?_
    have := List.mem_range'_1.1 between
    rw [byteAt, if_pos (by omega)]
    exact follows_pure _
  rwa [List.mapM_pure] at bytes

theorem follows_readWord (small : mem.size < UInt32.size) :
    Follows (readWord mem address) (mem.readWord address) :=
  (follows_read small).bind fun _ _ => follows_pure _

theorem follows_readBuffer (small : mem.size < UInt32.size) :
    Follows (readBuffer mem address) (mem.readBuffer address) := by
  refine (follows_readWord small).bind fun length _ => ?_
  split
  case isTrue fits =>
    refine (follows_sum fits).after ((follows_check _).bind fun _ inside => ?_)
    -- The range is checked once more when it is read.
    have again :
        mem.read (address + 4) length = .ok (mem.slice (address + 4).toNat length.toNat) := by
      rw [LinearMemory.read, inside]
      rfl
    have read : Follows _ _ := @follows_read mem (address + 4) length small
    rwa [again] at read
  case isFalse => exact follows_check _

/-- A word that is read is inside the memory. -/
theorem inside_of_readWord {word : UInt32} (read : mem.readWord address = .ok word) :
    address.toNat + 4 ≤ mem.size := by
  obtain ⟨bs, found, -⟩ := bind_eq_ok.1 read
  obtain ⟨_, inside, -⟩ := bind_eq_ok.1 found
  exact LinearMemory.checkRange_eq_ok.1 inside

/-! ### Slots -/

variable {t : Ty} {v : Value} {pointee : UInt32 → Guarded Value}
  {pointee' : UInt32 → Except MemoryError Value}

theorem follows_readScalar (small : mem.size < UInt32.size) :
    Follows (readScalar mem t address) (t.readScalar mem address) := by
  refine (follows_read small).bind fun bs _ => ?_
  rcases t.scalarOf? bs with _ | v
  · exact follows_check _
  · exact follows_pure v

theorem follows_readSlot (small : mem.size < UInt32.size)
    (inner : ∀ p, Follows (pointee p) (pointee' p)) :
    Follows (readSlot mem pointee t address) (t.readSlot mem pointee' address) := by
  unfold readSlot Ty.readSlot
  split
  · exact follows_readScalar small
  · exact (follows_readWord small).bind fun p _ => inner p

/-- A slot that is read is inside the memory. -/
theorem inside_of_readSlot (read : t.readSlot mem pointee' address = .ok v) :
    address.toNat + t.size.toNat ≤ mem.size := by
  unfold Ty.readSlot at read
  split at read
  case isTrue =>
    obtain ⟨bs, found, -⟩ := bind_eq_ok.1 read
    obtain ⟨_, inside, -⟩ := bind_eq_ok.1 found
    exact LinearMemory.checkRange_eq_ok.1 inside
  case isFalse pointer =>
    obtain ⟨p, word, -⟩ := bind_eq_ok.1 read
    have four : t.size = 4 := by cases t <;> first | rfl | exact absurd rfl pointer
    rw [four]
    exact inside_of_readWord word

/-- The items that are `stride` apart are those at `data + i * stride`. -/
theorem readStrided_eq_mapM (item : UInt32 → Except MemoryError α) (stride data : UInt32)
    (count : Nat) : ∀ i : Nat, Ty.readStrided item stride (data + UInt32.ofNat i * stride) count =
      (List.range' i count).mapM fun i => item (data + UInt32.ofNat i * stride) := by
  induction count with
  | zero => exact fun _ => rfl
  | succ n ih =>
    intro i
    have next : data + UInt32.ofNat i * stride + stride = data + UInt32.ofNat (i + 1) * stride := by
      have one : UInt32.ofNat 1 * stride = stride := UInt32.one_mul stride
      rw [UInt32.ofNat_add, UInt32.add_mul, one, UInt32.add_assoc]
    rw [Ty.readStrided, next, ih, List.range'_succ, List.mapM_cons]

/-- Items in a range that has been checked are found. -/
theorem follows_readEach {item : UInt32 → Guarded α} {item' : UInt32 → Except MemoryError α}
    {data stride count : UInt32} (small : mem.size < UInt32.size)
    (inside : data.toNat + count.toNat * stride.toNat ≤ mem.size)
    (h : ∀ a, a.toNat + stride.toNat ≤ mem.size → Follows (item a) (item' a)) :
    Follows (readEach item data stride count) (Ty.readStrided item' stride data count.toNat) := by
  have first : data + UInt32.ofNat 0 * stride = data :=
    (congrArg (data + ·) UInt32.zero_mul).trans (UInt32.add_zero data)
  have items := readStrided_eq_mapM item' stride data count.toNat 0
  rw [first] at items
  rw [items, readEach, List.range_eq_range']
  refine .mapM fun i between => ?_
  have below := (List.mem_range'_1.1 between).2
  have index : (UInt32.ofNat i).toNat = i := by
    rw [UInt32.toNat_ofNat']
    exact Nat.mod_eq_of_lt (by have := count.toNat_lt; omega)
  have within : i * stride.toNat + stride.toNat ≤ count.toNat * stride.toNat := by
    rw [← Nat.succ_mul]
    exact Nat.mul_le_mul_right _ (by omega)
  have product : (UInt32.ofNat i).toNat * stride.toNat < UInt32.size := by
    rw [index]
    omega
  have offset : (UInt32.ofNat i * stride).toNat = i * stride.toNat := by
    rw [UInt32.toNat_mul, index]
    exact Nat.mod_eq_of_lt (index ▸ product)
  have sum : data.toNat + (UInt32.ofNat i * stride).toNat < UInt32.size := by
    rw [offset]
    omega
  refine (follows_product product).after ((follows_sum sum).after (h _ ?_))
  rw [Layout.toNat_add_of_lt sum, offset]
  omega

theorem follows_readOrigin (small : mem.size < UInt32.size) :
    Follows (readOrigin mem address) (Ty.readOrigin mem address) := by
  refine (follows_readWord small).bind fun buffer _ => ?_
  split
  · exact follows_check _
  · refine (follows_readBuffer small).bind fun bs _ => follows_check _

/-! ### Layouts -/

theorem follows_alignUp {offset align : UInt32} (h : Layout.IsAlignment align)
    (room : offset.toNat + 8 ≤ UInt32.size) :
    Follows (alignUp offset align) (.ok (Layout.alignUp offset align)) := by
  unfold alignUp Layout.alignUp
  split
  case isTrue => exact follows_pure _
  case isFalse =>
    have small := h.le
    have whole := Nat.div_add_mod' offset.toNat align.toNat
    have quotient := Nat.div_le_self offset.toNat align.toNat
    rcases Nat.eq_zero_or_pos (offset.toNat % align.toNat) with even | odd
    · have even : offset % align = 0 := UInt32.toNat_inj.1 ((UInt32.toNat_mod _ _).trans even)
      rw [if_pos even]
      refine (follows_sum ?_).after (follows_product ?_)
      · rw [UInt32.toNat_div, UInt32.toNat_zero]
        omega
      · rw [UInt32.add_zero, UInt32.toNat_div]
        omega
    · have odd : offset % align ≠ 0 := fun even => by
        rw [← UInt32.toNat_mod, even] at odd
        cases odd
      have sum : (offset / align).toNat + (1 : UInt32).toNat < UInt32.size := by
        rw [UInt32.toNat_div, UInt32.toNat_one]
        omega
      rw [if_neg odd]
      refine (follows_sum sum).after (follows_product ?_)
      rw [Layout.toNat_add_of_lt sum, UInt32.toNat_div, UInt32.toNat_one, Nat.add_mul]
      omega

theorem follows_placeFrom {declared : List (String × Ty)} {offset widest : UInt32}
    (room : offset.toNat + 16 * declared.length + 8 ≤ UInt32.size) :
    Follows (placeFrom offset widest declared) (.ok (Layout.placeFrom offset widest declared)) := by
  induction declared generalizing offset widest with
  | nil => exact follows_pure _
  | cons f rest ih =>
    obtain ⟨name, ty⟩ := f
    rw [List.length_cons] at room
    have aligned : Layout.IsAlignment ty.align := Layout.isAlignment_size ty
    have size := (Layout.isAlignment_size ty).le
    obtain ⟨-, below⟩ := @Layout.alignUp_bounds offset _ aligned (by omega)
    have fits : (Layout.alignUp offset ty.align).toNat + ty.size.toNat < UInt32.size := by omega
    refine (follows_alignUp aligned (by omega)).after ((follows_sum fits).after ?_)
    refine (ih ?_).after (follows_pure _)
    rw [Layout.toNat_add_of_lt fits]
    omega

/-- Fields are laid out as long as there is room for them. -/
theorem follows_place {declared : List (String × Ty)} {start : UInt32}
    (room : start.toNat + 16 * declared.length + 8 ≤ UInt32.size) :
    Follows (place start declared) (.ok (Layout.place start declared)) := by
  obtain ⟨-, aligned, far⟩ :=
    Layout.spaced_placeFrom (.inl rfl) room (rfl : Layout.placeFrom start 1 declared = _)
  exact (follows_placeFrom room).after
    ((follows_alignUp aligned (by omega)).after (follows_pure _))

/-! ### Fields -/

/-- Fields have been read up to an offset. -/
def Reached (mem : LinearMemory) (base offset : UInt32) : Prop :=
  offset = 0 ∨ base.toNat + offset.toNat ≤ mem.size

variable {base offset : UInt32}

/-- A field begins at most seven bytes behind what has been read. -/
theorem Reached.start_lt (h : Reached mem base offset) (small : mem.size + 8 ≤ UInt32.size)
    (ty : Ty) : base.toNat + (Layout.alignUp offset ty.align).toNat < UInt32.size := by
  have aligned : Layout.IsAlignment ty.align := Layout.isAlignment_size ty
  rcases h with rfl | h
  · rw [aligned.alignUp_zero]
    exact base.toNat_lt
  · obtain ⟨-, below⟩ := @Layout.alignUp_bounds offset _ aligned (by omega)
    omega

/-- A field that has been read is in the memory, and so is the place where the next one is due. -/
theorem Reached.next {ty : Ty} (h : Reached mem base offset) (small : mem.size + 8 ≤ UInt32.size)
    (read : ty.readSlot mem pointee' (base + Layout.alignUp offset ty.align) = .ok v) :
    base.toNat + (Layout.alignUp offset ty.align).toNat + ty.size.toNat ≤ mem.size ∧
      Reached mem base (Layout.alignUp offset ty.align + ty.size) := by
  have inside := inside_of_readSlot read
  rw [Layout.toNat_add_of_lt (h.start_lt small ty)] at inside
  refine ⟨inside, .inr ?_⟩
  rw [Layout.toNat_add_of_lt (by omega)]
  omega

/-- Fields are read one after the other, so the address of each of them is near to what has been
read. This does not depend on whether all of them could be laid out. -/
theorem follows_readFieldsAt {declared : List (String × Ty)} {fields : List Field}
    {widest finish most : UInt32} (small : mem.size + 8 ≤ UInt32.size)
    (placed : Layout.placeFrom offset widest declared = (fields, finish, most))
    (inner : ∀ f ∈ fields, ∀ p, Follows (readPointee mem f.ty p) (f.ty.readPointee mem p))
    (reached : Reached mem base offset) :
    Follows (readFieldsAt mem fields base) (Ty.readFieldsAt mem fields base) := by
  induction declared generalizing offset widest fields with
  | nil =>
    cases placed
    exact follows_pure []
  | cons f rest ih =>
    obtain ⟨others, later, rfl⟩ := Layout.exists_of_placeFrom_cons placed
    obtain ⟨here, inner⟩ := List.forall_mem_cons.1 inner
    refine (follows_sum (reached.start_lt small f.2)).after ?_
    refine (follows_readSlot (by omega) here).bind fun v read => ?_
    exact (ih later inner (reached.next small read).2).bind fun values _ =>
      follows_pure (v :: values)

/-- All fields that have been read are in the memory. -/
theorem inside_of_readFieldsAt {declared : List (String × Ty)} {fields : List Field}
    {widest finish most : UInt32} {values : List Value} (small : mem.size + 8 ≤ UInt32.size)
    (placed : Layout.placeFrom offset widest declared = (fields, finish, most))
    (reached : Reached mem base offset) (read : Ty.readFieldsAt mem fields base = .ok values) :
    ∀ f ∈ fields, base.toNat + f.offset.toNat + f.ty.size.toNat ≤ mem.size := by
  induction declared generalizing offset widest fields values with
  | nil =>
    cases placed
    exact nofun
  | cons f rest ih =>
    obtain ⟨others, later, rfl⟩ := Layout.exists_of_placeFrom_cons placed
    obtain ⟨v, here, read⟩ := bind_eq_ok.1 read
    obtain ⟨more, read, -⟩ := bind_eq_ok.1 read
    obtain ⟨inside, next⟩ := reached.next small here
    exact List.forall_mem_cons.2 ⟨inside, ih later next read⟩

/-! ### Pointers -/

theorem follows_leaf (small : mem.size < UInt32.size) (plain : t.isLeaf = true) (p : UInt32) :
    Follows (readPointee mem t p) (t.readPointee mem p) := by
  cases t <;> try cases plain
  case string =>
    unfold readPointee Ty.readPointee
    split
    · exact follows_check _
    · refine (follows_readBuffer small).bind fun bs _ => ?_
      rcases Utf8.decode bs with fault | s
      · exact follows_check _
      · exact follows_pure _
  case bytes =>
    unfold readPointee Ty.readPointee
    split
    · exact follows_check _
    · exact (follows_readBuffer small).bind fun bs _ => follows_pure _
  case jig demand =>
    unfold readPointee Ty.readPointee
    split
    · exact follows_check _
    · exact (follows_readOrigin small).bind fun origin _ => follows_pure _
  all_goals exact follows_check _

theorem follows_nullable (small : mem.size < UInt32.size)
    (inner : ∀ p, Follows (readPointee mem t p) (t.readPointee mem p)) (p : UInt32) :
    Follows (readPointee mem (.nullable t) p) ((Ty.nullable t).readPointee mem p) := by
  unfold readPointee Ty.readPointee
  split
  · exact follows_pure _
  · split
    · exact follows_readScalar small
    · exact inner p

/-- The word behind one that has been read. -/
theorem follows_next {f : UInt32 → Guarded α} {p word : UInt32}
    {y : Except MemoryError α} (small : mem.size + 8 ≤ UInt32.size)
    (read : mem.readWord p = .ok word) (h : Follows (f (p + 4)) y) :
    Follows (sum p 4 >>= f) y := by
  have inside := inside_of_readWord read
  have fits : p.toNat + (4 : UInt32).toNat < UInt32.size := by
    change p.toNat + 4 < _
    omega
  exact (follows_sum fits).after h

theorem follows_array (small : mem.size + 8 ≤ UInt32.size)
    (inner : ∀ p, Follows (readPointee mem t p) (t.readPointee mem p)) (p : UInt32) :
    Follows (readPointee mem (.array t) p) ((Ty.array t).readPointee mem p) := by
  have less : mem.size < UInt32.size := by omega
  unfold readPointee Ty.readPointee
  split
  · exact follows_check _
  · refine (follows_readWord less).bind fun length word => follows_next small word ?_
    refine (follows_readWord less).bind fun data _ => (follows_check _).bind fun _ inside => ?_
    have inside := LinearMemory.checkRange_eq_ok.1 inside
    exact (follows_readEach less inside fun a _ => follows_readSlot less inner).bind
      fun items _ => follows_pure _

theorem follows_map {k v : Ty} (small : mem.size + 8 ≤ UInt32.size)
    (key : ∀ p, Follows (readPointee mem k p) (k.readPointee mem p))
    (value : ∀ p, Follows (readPointee mem v p) (v.readPointee mem p)) (p : UInt32) :
    Follows (readPointee mem (.map k v) p) ((Ty.map k v).readPointee mem p) := by
  have less : mem.size < UInt32.size := by omega
  unfold readPointee Ty.readPointee
  split
  · exact follows_check _
  · refine (follows_readWord less).bind fun length word => follows_next small word ?_
    refine (follows_readWord less).bind fun data _ => ?_
    have room : (0 : UInt32).toNat + 16 * [("key", k), ("value", v)].length + 8 ≤ UInt32.size := by
      change 0 + 16 * 2 + 8 ≤ UInt32.size
      decide
    refine (follows_place room).after ?_
    rw [show Layout.place 0 [("key", k), ("value", v)] = _ from Ty.entryLayout_eq k v]
    refine (follows_check _).bind fun _ inside => ?_
    have inside := LinearMemory.checkRange_eq_ok.1 inside
    refine (follows_readEach less inside fun base room => ?_).bind fun entries _ => follows_pure _
    obtain ⟨-, within, -⟩ := Ty.entry_cases k v
    have start : base + 0 = base := UInt32.add_zero base
    have first : base.toNat + (0 : UInt32).toNat < UInt32.size := base.toNat_lt
    have second : base.toNat + (Ty.entryValueOffset k v).toNat < UInt32.size := by omega
    refine (follows_sum first).after ?_
    rw [start]
    refine (follows_readSlot less key).bind fun x _ => ?_
    exact (follows_sum second).after
      ((follows_readSlot less value).bind fun y _ => follows_pure _)

theorem follows_object {name : String} {fields : List Field} {size : UInt32}
    (small : mem.size + 8 ≤ UInt32.size)
    (laid : ∃ declared, Layout.place 0 declared = (fields, size))
    (inner : ∀ f ∈ fields, ∀ p, Follows (readPointee mem f.ty p) (f.ty.readPointee mem p))
    (p : UInt32) : Follows (readPointee mem (.object name fields size) p)
      ((Ty.object name fields size).readPointee mem p) := by
  obtain ⟨declared, placed⟩ := laid
  cases placed
  unfold readPointee Ty.readPointee
  split
  · exact follows_check _
  · exact (follows_readFieldsAt small rfl inner (.inl rfl)).bind fun values _ => follows_pure _

/-- What a pointer of a type leads to is read without stopping. -/
theorem follows_readPointee (small : mem.size + 8 ≤ UInt32.size) (proper : t.Proper) :
    ∀ p, Follows (readPointee mem t p) (t.readPointee mem p) := by
  induction proper with
  | leaf plain => exact follows_leaf (by omega) plain
  | array _ ih => exact follows_array small ih
  | map plain _ ih => exact follows_map small (follows_leaf (by omega) plain) ih
  | nullable _ _ ih => exact follows_nullable (by omega) ih
  | object laid _ ih => exact follows_object small laid ih

theorem follows_readValue (small : mem.size + 8 ≤ UInt32.size) (proper : t.Proper) :
    Follows (readValue mem t address) (t.readValue mem address) :=
  follows_readSlot (by omega) (follows_readPointee small proper)

theorem follows_lift (small : mem.size + 8 ≤ UInt32.size) (proper : t.Proper) (word : UInt64) :
    Follows (lift mem t word) (t.lift mem word) := by
  have pointee := follows_readPointee small proper word.toUInt32
  cases t
  case string | bytes | array | map | nullable | object | jig => exact pointee
  all_goals exact follows_check _

/-! ### Arguments -/

variable {declared : List (String × Ty)} {params : List Field} {size blob : UInt32}

/-- The arguments of a call are read without stopping once it is known how much is needed. -/
theorem follows_readArgs {needed : Guarded UInt32} (small : mem.size + 8 ≤ UInt32.size)
    (laid : Layout.place 0 declared = (params, size))
    (proper : ∀ f ∈ params, f.ty.Proper) (h : Follows needed (.ok (Ty.extent params))) :
    Follows (readArgs mem needed params blob) (Ty.readArgs mem params blob) := by
  have less : mem.size < UInt32.size := by omega
  unfold readArgs Ty.readArgs
  split
  · exact follows_pure []
  · split
    · exact follows_check _
    · refine (follows_readWord less).bind fun length word => h.after ?_
      dsimp only
      split
      · exact follows_check _
      · cases laid
        exact follows_next small word (follows_readFieldsAt small rfl
          (fun f mem => follows_readPointee small (proper f mem)) (.inl rfl))

/-- Where fields were laid out without stopping, each of them ends at a 32-bit offset. -/
theorem lt_of_run_placeFrom {offset widest : UInt32} {placed : List Field × UInt32 × UInt32}
    (run : (placeFrom offset widest declared).run = some (.ok placed)) :
    ∀ f ∈ placed.1, f.offset.toNat + f.ty.size.toNat < UInt32.size := by
  induction declared generalizing offset widest placed with
  | nil =>
    cases run
    exact nofun
  | cons f rest ih =>
    obtain ⟨start, -, run⟩ := exists_of_run_bind run
    obtain ⟨next, sum, run⟩ := exists_of_run_bind run
    obtain ⟨others, later, returned⟩ := exists_of_run_bind run
    cases returned
    exact List.forall_mem_cons.2 ⟨(of_run_sum sum).1, ih later⟩

/-- What is needed is computed from sums that have been computed before, for the layout. -/
theorem follows_extent (run : (place 0 declared).run = some (.ok (params, size))) :
    Follows (extent params) (.ok (Ty.extent params)) := by
  have fits : ∀ f ∈ params, f.offset.toNat + f.ty.size.toNat < UInt32.size := by
    obtain ⟨placed, laying, rounding⟩ := exists_of_run_bind run
    obtain ⟨_, -, returned⟩ := exists_of_run_bind rounding
    cases returned
    exact lt_of_run_placeFrom laying
  have folds : ∀ n : UInt32, Follows
      (params.foldlM (fun n f => do return max n (← sum f.offset f.ty.size)) n)
      (.ok (params.foldl (fun n f => max n (f.offset + f.ty.size)) n)) := by
    clear run
    induction params with
    | nil => exact follows_pure
    | cons f rest ih =>
      obtain ⟨here, others⟩ := List.forall_mem_cons.1 fits
      intro n
      have step : Follows (do return max n (← sum f.offset f.ty.size))
          (.ok (max n (f.offset + f.ty.size))) := (follows_sum here).after (follows_pure _)
      rw [List.foldlM_cons, List.foldl_cons]
      exact step.after (ih others _)
  exact folds 0

end Guarded

end JigLedger
