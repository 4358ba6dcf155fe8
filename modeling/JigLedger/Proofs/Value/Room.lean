import JigLedger.Proofs.Value.Bump
import JigLedger.Proofs.Value.Memory

/-!
# Room for values

How many bytes it takes to allocate a value. Values whose types are proper are written to a memory
that grows as soon as there is this room, and they are read back from there.
-/

namespace JigLedger

namespace Layout

/-- The size of fields that stand behind an offset, if it were not limited to 32 bits. -/
def room (offset widest : Nat) : List Field → Nat
  | [] => roundUp offset widest
  | f :: fields =>
    room (roundUp offset f.ty.size.toNat + f.ty.size.toNat) (max widest f.ty.size.toNat) fields

/-- The numbers of the alignments. -/
theorem IsAlignment.toNat {n : UInt32} (h : IsAlignment n) :
    n.toNat = 1 ∨ n.toNat = 2 ∨ n.toNat = 4 ∨ n.toNat = 8 := by
  rcases h with rfl | rfl | rfl | rfl <;> decide

theorem toNat_max (m n : UInt32) : (max m n).toNat = max m.toNat n.toNat := by
  change (if m ≤ n then n else m).toNat = _
  split
  case isTrue le =>
    have le := UInt32.le_iff_toNat_le.1 le
    omega
  case isFalse lt =>
    rw [UInt32.le_iff_toNat_le] at lt
    omega

theorem le_room {fields : List Field} {offset : Nat} {widest : UInt32} (h : IsAlignment widest) :
    offset ≤ room offset widest.toNat fields := by
  induction fields generalizing offset widest with
  | nil => exact (le_roundUp h.toNat).1
  | cons f fields ih =>
    have sized := isAlignment_size f.ty
    have here := (@le_roundUp offset _ sized.toNat).1
    have rest := @ih (roundUp offset f.ty.size.toNat + f.ty.size.toNat) _ (h.max sized)
    rw [toNat_max] at rest
    rw [room]
    omega

/-- Fields whose size fits into 32 bits stand one behind the other, and it is their size. -/
theorem exact_placeFrom {declared : List (String × Ty)} {offset widest : UInt32}
    (hw : IsAlignment widest) {placed : List Field} {finish most : UInt32}
    (h : placeFrom offset widest declared = (placed, finish, most))
    (small : room offset.toNat widest.toNat placed < UInt32.size) :
    Spaced offset.toNat placed (alignUp finish most).toNat ∧
      (alignUp finish most).toNat = room offset.toNat widest.toNat placed := by
  induction declared generalizing offset widest placed with
  | nil =>
    cases h
    have exact := toNat_alignUp hw small
    refine ⟨?_, exact⟩
    rw [Spaced, exact]
    exact (le_roundUp hw.toNat).1
  | cons f rest ih =>
    obtain ⟨name, ty⟩ := f
    obtain ⟨placed', hp, rfl⟩ := exists_of_placeFrom_cons h
    have sized := isAlignment_size ty
    have wide : IsAlignment (max widest ty.align) := hw.max sized
    have behind := @le_room placed' (roundUp offset.toNat ty.size.toNat + ty.size.toNat) _ wide
    have widening : (max widest ty.align).toNat = max widest.toNat ty.size.toNat := toNat_max _ _
    rw [widening] at behind
    change room (roundUp offset.toNat ty.size.toNat + ty.size.toNat)
      (max widest.toNat ty.size.toNat) placed' < UInt32.size at small
    rw [room]
    change _ ∧ _ = room (roundUp offset.toNat ty.size.toNat + ty.size.toNat)
      (max widest.toNat ty.size.toNat) placed'
    have begins : (alignUp offset ty.align).toNat = roundUp offset.toNat ty.size.toNat :=
      toNat_alignUp sized (by change roundUp _ ty.size.toNat < _; omega)
    have next : (alignUp offset ty.align + ty.size).toNat =
        roundUp offset.toNat ty.size.toNat + ty.size.toNat := by
      rw [UInt32.toNat_add, begins, Nat.mod_eq_of_lt]
      rw [UInt32.size] at small
      omega
    obtain ⟨spaced, size⟩ := ih wide hp (by rw [next, widening]; exact small)
    rw [next] at spaced size
    rw [widening] at size
    refine ⟨⟨?_, ?_⟩, size⟩
    · rw [begins]
      exact (le_roundUp sized.toNat).1
    · rw [begins]
      exact spaced

/-- So do the fields of a layout. -/
theorem exact_place {start size : UInt32} {declared : List (String × Ty)} {fields : List Field}
    (h : place start declared = (fields, size))
    (small : room start.toNat 1 fields < UInt32.size) :
    Spaced start.toNat fields size.toNat ∧ size.toNat = room start.toNat 1 fields := by
  obtain ⟨finish, most, placed, rfl⟩ := exists_placeFrom_of_place h
  exact exact_placeFrom (.inl rfl) placed small

end Layout

namespace Ty

open BumpMemory

mutual

/-- The number of bytes that allocating a value takes. Scalars and null are not allocated. -/
def footprint : Ty → Value → Nat
  | string, .string s => taken (4 + (utf8 s).length)
  | bytes, .bytes bs => taken (4 + bs.length)
  | array t, .array items =>
    taken (max (items.length * t.size.toNat) 1) + (items.map t.footprint).sum + taken 8
  | map k v, .map entries =>
    taken (max (entries.length * (entrySize k v).toNat) 1) +
      (entries.map fun e => k.footprint e.1 + v.footprint e.2).sum + taken 8
  | nullable _, .null => 0
  | nullable t, v => if t.isScalar then taken t.size.toNat else t.footprint v
  | object _ fields _, .object values =>
    taken (max (Layout.room 0 1 fields) 1) + footprints fields values
  | jig _, .jig _ => taken 40 + taken 4
  | _, _ => 0

/-- The number of bytes that allocating the values of fields takes. -/
def footprints : List Field → List Value → Nat
  | f :: fields, v :: values => f.ty.footprint v + footprints fields values
  | _, _ => 0

end

theorem footprint_of_isScalar {t : Ty} (scalar : t.isScalar = true) (v : Value) :
    t.footprint v = 0 := by
  cases t <;> first | rfl | cases scalar

theorem le_taken (size : Nat) : size ≤ taken size := (Layout.le_roundUp (by decide)).1

variable {W : Set Nat}

/-! ### Values in place -/

/-- A value in place is read back, given that what a pointer of its type leads to is. -/
theorem takes_writeSlot {t : Ty} {v : Value} {alloc : Value → Run UInt32}
    {read : LinearMemory → UInt32 → Except MemoryError Value} {address : UInt32}
    (shape : t.check v = .ok ())
    (inner : t.isScalar = false →
      Takes ∅ (t.footprint v) (alloc v) fun p mem => read mem p = .ok v)
    (sub : span address.toNat t.size.toNat ⊆ W) :
    Takes W (t.footprint v) (writeSlot heap alloc t v address) fun _ mem =>
      t.readSlot mem (read mem) address = .ok v := by
  unfold writeSlot readSlot
  by_cases scalar : t.isScalar = true
  · obtain ⟨bs, written, size, shown⟩ := exists_scalarBytes? scalar shape
    simp only [if_pos scalar, shape, written, footprint_of_isScalar scalar]
    have nonempty : 0 < bs.length := size ▸ (Layout.isAlignment_size t).le.1
    refine .after rfl ((Takes.write nonempty (size ▸ sub)).imp fun _ mem stands => ?_)
    rw [readScalar, stands.read size.symm]
    refine bind_eq_ok.2 ⟨bs, rfl, ?_⟩
    rw [shown]
    rfl
  · have pointer : t.isScalar = false := by simpa using scalar
    have four : t.size.toNat = 4 := by cases t <;> first | rfl | cases pointer
    simp only [pointer, Bool.false_eq_true, if_false]
    rw [← Nat.add_zero (t.footprint v)]
    refine (inner pointer).bind (Set.empty_disjoint W) (by rw [Set.empty_union]) fun p _ _ => ?_
    refine (Takes.writeWord (four ▸ sub)).imp fun _ mem stands there => ?_
    rw [stands.readWord]
    exact there

/-! ### Buffers -/

/-- A buffer is read back. -/
theorem takes_writeBuffer (bs : Bytes) :
    Takes ∅ (taken (4 + bs.length)) (heap.writeBuffer bs) fun p mem =>
      p ≠ 0 ∧ mem.readBuffer p = .ok bs := by
  refine .of_room fun room => ?_
  have least := le_taken (4 + bs.length)
  have most : limit + 8 = UInt32.size := rfl
  have short : bs.length < UInt32.size := by omega
  have length : (UInt32.ofNat bs.length).toNat = bs.length := UInt32.toNat_ofNat_of_lt' short
  have whole : (4 + UInt32.ofNat bs.length).toNat = 4 + bs.length := by
    rw [UInt32.toNat_add, length]
    exact Nat.mod_eq_of_lt (by change 4 + bs.length < UInt32.size; omega)
  unfold Heap.writeBuffer
  simp only [if_pos short]
  rw [← whole, ← Nat.add_zero (taken _)]
  refine .alloc_bind fun p nonzero bounded _ => ?_
  rw [whole] at bounded ⊢
  have behind : p.toNat + 4 < UInt32.size := by omega
  have next : (p + 4).toNat = p.toNat + 4 := by
    rw [UInt32.toNat_add]
    exact Nat.mod_eq_of_lt behind
  have written := @Takes.writeBehind (∅ ∪ span p.toNat (4 + bs.length)) p
    (UInt32.ofNat bs.length) bs next Set.subset_union_right
  rw [← bind_assoc]
  refine written.bind_pure fun _ mem ⟨head, body⟩ _ => ⟨nonzero, ?_⟩
  exact head.readBuffer length behind body

/-! ### Sequences -/

section Sequences

variable {α : Type} {item : α → UInt32 → Run Unit} {cost : α → Nat}
  {read : LinearMemory → UInt32 → Except MemoryError α} {stride : UInt32} {items : List α}

/-- Items that are written one after the other are read back one after the other. -/
theorem takes_writeStrided (each : ∀ a ∈ items, ∀ e : UInt32,
      e.toNat + stride.toNat ≤ UInt32.size → Takes (span e.toNat stride.toNat) (cost a) (item a e)
        fun _ mem => read mem e = .ok a)
    {n : Nat} {address : UInt32} (begins : items ≠ [] → address.toNat = n)
    (fits : n + items.length * stride.toNat ≤ limit) :
    Takes (span n (items.length * stride.toNat)) (items.map cost).sum
      (writeStrided item stride address items) fun _ mem =>
        readStrided (read mem) stride address items.length = .ok items := by
  have most : limit + 8 = UInt32.size := rfl
  induction items generalizing n address with
  | nil => exact .pure fun _ => rfl
  | cons a rest ih =>
    obtain rfl := begins (List.cons_ne_nil a rest)
    rw [List.length_cons, Nat.succ_mul, Nat.add_comm (rest.length * stride.toNat)] at fits ⊢
    rw [List.map_cons, List.sum_cons]
    have next : rest ≠ [] → (address + stride).toNat = address.toNat + stride.toNat := fun _ => by
      rw [UInt32.toNat_add]
      exact Nat.mod_eq_of_lt (by change _ < UInt32.size; omega)
    have others := ih (fun b mem => each b (.tail _ mem)) next (by omega)
    refine (each a (.head _) address (by omega)).bind (disjoint_span (Nat.le_refl _))
      (span_union_span _ _ _).subset fun _ _ _ => others.imp fun _ mem tail first => ?_
    rw [readStrided, first]
    change (readStrided (read mem) stride (address + stride) rest.length >>= _) = _
    rw [tail]
    rfl

/-- The record of a sequence is read back. -/
theorem takes_record (length data : UInt32) :
    Takes ∅ (taken 8) (do
      let header ← heap.alloc 8
      heap.writeWord header length
      heap.writeWord (header + 4) data
      return header)
      fun p mem => p ≠ 0 ∧ mem.readWord p = .ok length ∧ mem.readWord (p + 4) = .ok data := by
  have most : limit + 8 = UInt32.size := rfl
  change Takes ∅ (taken (8 : UInt32).toNat + 0) _ _
  refine .alloc_bind fun p nonzero bounded _ => ?_
  change p.toNat + 8 ≤ limit at bounded
  have next : (p + 4).toNat = p.toNat + 4 := by
    rw [UInt32.toNat_add]
    exact Nat.mod_eq_of_lt (by change p.toNat + 4 < UInt32.size; omega)
  have written := @Takes.writeBehind (∅ ∪ span p.toNat 8) p length (littleEndian 4 data.toNat) next
    (by rw [length_littleEndian]; exact Set.subset_union_right)
  rw [← bind_assoc]
  refine written.bind_pure fun _ mem ⟨head, body⟩ _ => ⟨nonzero, head.readWord, ?_⟩
  rw [← next] at body
  exact body.readWord

/-- A sequence is read back. -/
theorem takes_allocSequence (wide : 0 < stride.toNat)
    (each : ∀ a ∈ items, ∀ e : UInt32, e.toNat + stride.toNat ≤ UInt32.size →
      Takes (span e.toNat stride.toNat) (cost a) (item a e) fun _ mem => read mem e = .ok a) :
    Takes ∅ (taken (max (items.length * stride.toNat) 1) + (items.map cost).sum + taken 8)
      (allocSequence heap item stride items) fun p mem =>
        p ≠ 0 ∧ ∃ length data, length.toNat = items.length ∧ mem.readWord p = .ok length ∧
          mem.readWord (p + 4) = .ok data ∧
          mem.checkRange data (length.toNat * stride.toNat) = .ok () ∧
          readStrided (read mem) stride data length.toNat = .ok items := by
  refine .of_room fun room => ?_
  have most : limit + 8 = UInt32.size := rfl
  have least := le_taken (max (items.length * stride.toNat) 1)
  have many := Nat.le_mul_of_pos_right items.length wide
  have short : items.length < UInt32.size := by omega
  have length : (UInt32.ofNat items.length).toNat = items.length := UInt32.toNat_ofNat_of_lt' short
  have size : min ((UInt32.ofNat items.length).toNat * stride.toNat) (UInt32.size - 1) =
      items.length * stride.toNat := by
    rw [length]
    omega
  unfold allocSequence
  simp only [if_pos short, size]
  have whole : (max (UInt32.ofNat (items.length * stride.toNat)) 1).toNat =
      max (items.length * stride.toNat) 1 := by
    rw [Layout.toNat_max, UInt32.toNat_ofNat_of_lt' (by omega)]
    rfl
  rw [← whole, Nat.add_assoc]
  refine .alloc_bind fun data nonzero bounded _ => ?_
  rw [whole, Set.empty_union] at *
  have written := takes_writeStrided each (fun _ => (rfl : data.toNat = data.toNat)) (by omega)
  have inside : span data.toNat (items.length * stride.toNat) ⊆
      span data.toNat (max (items.length * stride.toNat) 1) :=
    span_subset (Nat.le_refl _) (by omega)
  refine (written.widen inside).bind (Set.disjoint_empty _) (by rw [Set.union_empty]) fun _ _ _ => ?_
  refine (takes_record _ data).imp fun p mem ⟨header, head, second⟩ body within => ?_
  refine ⟨header, _, data, length, head, second, ?_, length.symm ▸ body⟩
  rw [LinearMemory.checkRange_eq_ok, length]
  omega

end Sequences

/-! ### Values behind pointers -/

/-- What a pointer of a type leads to is read back, and only null is at the address zero. -/
def Storable (t : Ty) : Prop :=
  ∀ v, t.check v = .ok () → t.isScalar = false →
    Takes ∅ (t.footprint v) (t.allocValue heap v) fun p mem =>
      (v ≠ .null → p ≠ 0) ∧ t.readPointee mem p = .ok v

/-- A value whose type is storable is read back in place. -/
theorem Storable.slot {t : Ty} (storable : t.Storable) {v : Value} (shape : t.check v = .ok ())
    {address : UInt32} (sub : span address.toNat t.size.toNat ⊆ W) :
    Takes W (t.footprint v) (writeSlot heap (t.allocValue heap) t v address) fun _ mem =>
      t.readSlot mem (t.readPointee mem) address = .ok v :=
  @takes_writeSlot _ t v _ (fun mem => t.readPointee mem) _ shape
    (fun pointer => (storable v shape pointer).imp fun _ _ read => read.2) sub

theorem storable_of_isLeaf {t : Ty} (plain : t.isLeaf = true) : t.Storable := by
  intro v shape pointer
  cases t
  case string =>
    cases v <;> try cases shape
    case string s =>
      refine (takes_writeBuffer (utf8 s)).imp fun p mem there => ⟨fun _ => there.1, ?_⟩
      rw [readPointee, if_neg there.1, there.2]
      refine bind_eq_ok.2 ⟨utf8 s, rfl, ?_⟩
      rw [Utf8.decode_utf8]
      rfl
  case bytes =>
    cases v <;> try cases shape
    case bytes content =>
      refine (takes_writeBuffer content).imp fun p mem there => ⟨fun _ => there.1, ?_⟩
      rw [readPointee, if_neg there.1, there.2]
      rfl
  case jig demand =>
    cases v <;> try cases shape
    case jig origin =>
      have buffer := takes_writeBuffer origin.toBytes
      rw [Pointer.length_toBytes] at buffer
      refine buffer.bind (Set.disjoint_empty _) (by rw [Set.union_empty]) fun buffer _ _ => ?_
      change Takes ∅ (taken (4 : UInt32).toNat + 0) _ _
      refine .alloc_bind fun p nonzero _ _ => ?_
      rw [Set.empty_union]
      refine (Takes.writeWord (Set.Subset.refl _)).bind_pure fun _ mem stands _ read => ?_
      refine ⟨fun _ => nonzero, ?_⟩
      have origin : readOrigin mem p = .ok origin := by
        rw [readOrigin, stands.readWord]
        change (if buffer = 0 then _ else _) = _
        rw [if_neg read.1, read.2]
        change (Pointer.ofBytes origin.toBytes).mapError _ = _
        rw [Pointer.ofBytes_toBytes]
        rfl
      rw [readPointee, if_neg nonzero, origin]
      rfl
  case array | map | nullable | object => cases plain
  all_goals cases pointer

theorem Storable.array {t : Ty} (storable : t.Storable) : (array t).Storable := by
  intro x shape _
  cases x <;> try cases shape
  case array items =>
    have each := forM_eq_ok.1 shape
    have written := @takes_allocSequence _ (writeSlot heap (t.allocValue heap) t) t.footprint
      (fun mem => t.readSlot mem (t.readPointee mem)) t.size items (Layout.isAlignment_size t).le.1
      fun a mem e _ => storable.slot (each a mem) (Set.Subset.refl _)
    refine written.imp fun p mem ⟨nonzero, length, data, _, head, second, inside, body⟩ => ?_
    refine ⟨fun _ => nonzero, ?_⟩
    rw [readPointee, if_neg nonzero, head]
    change (mem.readWord (p + 4) >>= _) = _
    rw [second]
    change (mem.checkRange data _ >>= _) = _
    rw [inside]
    change (readStrided _ _ _ _ >>= _) = _
    rw [body]
    rfl

/-- The two parts of a map entry are read back. -/
theorem takes_entry {k v : Ty} (key : k.Storable) (value : v.Storable) {e : Value × Value}
    (shapes : k.check e.1 = .ok () ∧ v.check e.2 = .ok ()) {base : UInt32}
    (fits : base.toNat + (entrySize k v).toNat ≤ UInt32.size) :
    Takes (span base.toNat (entrySize k v).toNat) (k.footprint e.1 + v.footprint e.2)
      (do
        writeSlot heap (k.allocValue heap) k e.1 base
        writeSlot heap (v.allocValue heap) v e.2 (base + entryValueOffset k v))
      fun _ mem => (do
        let key ← k.readSlot mem (k.readPointee mem) base
        let value ← v.readSlot mem (v.readPointee mem) (base + entryValueOffset k v)
        return (key, value)) = Except.ok e := by
  obtain ⟨behind, within, -⟩ := entry_cases k v
  have sized := (Layout.isAlignment_size v).le
  have place : (base + entryValueOffset k v).toNat = base.toNat + (entryValueOffset k v).toNat := by
    rw [UInt32.toNat_add]
    exact Nat.mod_eq_of_lt (by change _ < UInt32.size; omega)
  have first := key.slot shapes.1 (Set.Subset.refl (span base.toNat k.size.toNat))
  have second := value.slot shapes.2
    (Set.Subset.refl (span (base + entryValueOffset k v).toNat v.size.toNat))
  rw [place] at second
  refine first.bind (disjoint_span (Nat.add_le_add_left behind _)) (Set.union_subset ?_ ?_)
    fun _ _ _ => second.imp fun _ mem there here => ?_
  · exact span_subset (Nat.le_refl _) (by omega)
  · exact span_subset (Nat.le_add_right _ _) (by omega)
  · rw [here]
    change (v.readSlot mem _ _ >>= _) = _
    rw [there]
    rfl

theorem Storable.map {k v : Ty} (key : k.Storable) (value : v.Storable) :
    (map k v).Storable := by
  intro x shape _
  cases x <;> try cases shape
  case map entries =>
    have each : ∀ e ∈ entries, k.check e.1 = .ok () ∧ v.check e.2 = .ok () :=
      entries_of_check shape
    obtain ⟨behind, within, -⟩ := entry_cases k v
    have sized := (Layout.isAlignment_size k).le
    have written := @takes_allocSequence _
      (fun (e : Value × Value) base => do
        writeSlot heap (k.allocValue heap) k e.1 base
        writeSlot heap (v.allocValue heap) v e.2 (base + entryValueOffset k v))
      (fun e => k.footprint e.1 + v.footprint e.2)
      (fun mem base => do
        let key ← k.readSlot mem (k.readPointee mem) base
        let value ← v.readSlot mem (v.readPointee mem) (base + entryValueOffset k v)
        return (key, value))
      (entrySize k v) entries (by omega) fun e mem base fits => takes_entry key value (each e mem) fits
    refine written.imp fun p mem ⟨nonzero, length, data, _, head, second, inside, body⟩ => ?_
    refine ⟨fun _ => nonzero, ?_⟩
    rw [readPointee, if_neg nonzero, head]
    change (mem.readWord (p + 4) >>= _) = _
    rw [second]
    change (mem.checkRange data _ >>= _) = _
    rw [inside]
    change (readStrided _ _ _ _ >>= _) = _
    rw [body]
    rfl

/-- Null is at the address zero, and other values of a nullable type are like those of the type that
was made nullable. -/
theorem Storable.nullable {t : Ty} (storable : t.Storable) : (nullable t).Storable := by
  intro v shape _
  by_cases present : v = .null
  · subst present
    exact .pure fun mem => ⟨fun absent => absurd rfl absent, by rw [readPointee, if_pos rfl]⟩
  rw [check_nullable present] at shape
  have alloc : (Ty.nullable t).allocValue heap v =
      if t.isScalar then do
        let address ← heap.alloc t.size
        writeSlot heap (t.allocValue heap) t v address
        return address
      else t.allocValue heap v := by
    cases v <;> first | rfl | exact absurd rfl present
  have room : (Ty.nullable t).footprint v =
      if t.isScalar then taken t.size.toNat else t.footprint v := by
    cases v <;> first | rfl | exact absurd rfl present
  rw [alloc, room]
  by_cases scalar : t.isScalar = true
  · rw [if_pos scalar, if_pos scalar, ← Nat.add_zero (taken _)]
    refine .alloc_bind fun p nonzero _ _ => ?_
    have slot := storable.slot (W := ∅ ∪ span p.toNat t.size.toNat) shape Set.subset_union_right
    rw [footprint_of_isScalar scalar] at slot
    refine slot.bind_pure fun _ mem read _ => ⟨fun _ => nonzero, ?_⟩
    rw [readPointee, if_neg nonzero, if_pos scalar]
    rwa [readSlot, if_pos scalar] at read
  · rw [if_neg scalar, if_neg scalar]
    refine (storable v shape (by simpa using scalar)).imp fun p mem there => ⟨there.1, ?_⟩
    rw [readPointee, if_neg (there.1 present), if_neg scalar]
    exact there.2

/-! ### Fields -/

/-- The values of fields that stand one behind the other are read back. -/
theorem takes_writeFieldsAt {fields : List Field} (storable : ∀ f ∈ fields, f.ty.Storable)
    {values : List Value} (count : fields.length = values.length)
    (shapes : checkFields fields values = .ok ()) {base : UInt32} {start finish : Nat}
    (spaced : Layout.Spaced start fields finish) (room : base.toNat + finish ≤ limit) :
    Takes (Set.Ico (base.toNat + start) (base.toNat + finish)) (footprints fields values)
      (writeFieldsAt heap fields values base) fun _ mem =>
        readFieldsAt mem fields base = .ok values := by
  have most : limit + 8 = UInt32.size := rfl
  induction fields generalizing values start with
  | nil =>
    cases values with
    | nil => exact .pure fun _ => rfl
    | cons => cases count
  | cons f fields ih =>
    cases values with
    | nil => cases count
    | cons v values =>
      obtain ⟨_, shape, shapes⟩ := bind_eq_ok.1 shapes
      obtain ⟨behind, rest⟩ := spaced
      have sized := (Layout.isAlignment_size f.ty).le
      have within := rest.le
      have place : (base + f.offset).toNat = base.toNat + f.offset.toNat := by
        rw [UInt32.toNat_add]
        exact Nat.mod_eq_of_lt (by change _ < UInt32.size; omega)
      have slot := (storable f (.head _)).slot shape
        (Set.Subset.refl (span (base + f.offset).toNat f.ty.size.toNat))
      have tail := ih (fun g mem => storable g (.tail _ mem)) (Nat.succ.inj count) shapes rest
      rw [place] at slot
      have apart : Disjoint (span (base.toNat + f.offset.toNat) f.ty.size.toNat)
          (Set.Ico (base.toNat + (f.offset.toNat + f.ty.size.toNat)) (base.toNat + finish)) := by
        rw [Set.disjoint_left]
        intro a ha hb
        rw [mem_span] at ha
        rw [Set.mem_Ico] at hb
        omega
      refine slot.bind apart ?_ fun _ _ _ => tail.imp fun _ mem rest first => ?_
      · rintro a (ha | hb)
        · rw [mem_span] at ha
          rw [Set.mem_Ico]
          omega
        · rw [Set.mem_Ico] at hb ⊢
          omega
      · rw [readFieldsAt, first]
        change (readFieldsAt mem fields base >>= _) = _
        rw [rest]
        rfl

theorem Storable.object {name : String} {fields : List Field} {size : UInt32}
    (laid : ∃ declared, Layout.place 0 declared = (fields, size))
    (storable : ∀ f ∈ fields, f.ty.Storable) : (object name fields size).Storable := by
  intro x shape _
  cases x <;> try cases shape
  case object values =>
    refine .of_room fun room => ?_
    have most : limit + 8 = UInt32.size := rfl
    have least := le_taken (max (Layout.room 0 1 fields) 1)
    rw [footprint] at room ⊢
    obtain ⟨declared, placed⟩ := laid
    have small : Layout.room (0 : UInt32).toNat 1 fields < UInt32.size := by
      rw [UInt32.toNat_zero]
      omega
    obtain ⟨spaced, exact⟩ := Layout.exact_place placed small
    rw [UInt32.toNat_zero] at spaced exact
    have whole : (max size 1).toNat = max (Layout.room 0 1 fields) 1 := by
      rw [Layout.toNat_max, exact]
      rfl
    rw [allocValue]
    refine .after (by rw [shape]; rfl) ?_
    rw [← whole]
    refine .alloc_bind fun p nonzero bounded _ => ?_
    rw [whole] at *
    rw [check] at shape
    split at shape
    case isFalse => cases shape
    case isTrue count =>
      have written := @takes_writeFieldsAt _ storable _ count shape p _ _ spaced (by omega)
      refine (written.widen ?_).bind_pure fun _ mem read _ => ⟨fun _ => nonzero, ?_⟩
      · intro a ha
        rw [Set.mem_Ico] at ha
        refine .inr (mem_span.2 ?_)
        omega
      · rw [readPointee, if_neg nonzero, read]
        rfl

/-- Values of all proper types are stored. -/
theorem Proper.storable {t : Ty} (h : t.Proper) : t.Storable := by
  induction h with
  | leaf plain => exact storable_of_isLeaf plain
  | array _ ih => exact ih.array
  | map plain _ ih => exact (storable_of_isLeaf plain).map ih
  | nullable _ _ ih => exact ih.nullable
  | object laid _ ih => exact .object laid ih

end Ty

end JigLedger
