import JigLedger.Proofs.Engine.Footprint
import JigLedger.Proofs.Layout
import JigLedger.Proofs.Value.Canonical

/-!
# Values are read back from memory

A value that has been written to the memory of a guest is read back from there, as long as the bytes
of what was allocated for it stay as they are. Each kind of type has its own lemma, and the
induction on types puts them together.
-/

namespace JigLedger.Ty

open Engine

/-! ### Scalars -/

/-- The bytes of a scalar have the size of its type, and they show this scalar again. -/
theorem exists_scalarBytes? {t : Ty} {v : Value} (scalar : t.isScalar = true)
    (shape : t.check v = .ok ()) :
    ∃ bs, scalarBytes? v = some bs ∧ bs.length = t.size.toNat ∧ t.scalarOf? bs = some v := by
  cases t <;> cases v <;> try cases shape
  case bool.bool b => cases b <;> exact ⟨_, rfl, rfl, rfl⟩
  case u8.u8 n =>
    refine ⟨_, rfl, rfl, ?_⟩
    simp [scalarOf?, ofLittleEndian]
  case i8.i8 n =>
    refine ⟨_, rfl, rfl, ?_⟩
    simp [scalarOf?, ofLittleEndian]
  case u16.u16 n =>
    have whole : n.toNat % stringCount 2 = n.toNat := Nat.mod_eq_of_lt n.toNat_lt
    refine ⟨_, rfl, length_littleEndian 2 _, ?_⟩
    simp only [scalarOf?, ofLittleEndian_littleEndian, whole, UInt16.ofNat_toNat]
  case u32.u32 n =>
    have whole : n.toNat % stringCount 4 = n.toNat := Nat.mod_eq_of_lt n.toNat_lt
    refine ⟨_, rfl, length_littleEndian 4 _, ?_⟩
    simp only [scalarOf?, ofLittleEndian_littleEndian, whole, UInt32.ofNat_toNat]
  case u64.u64 n =>
    have whole : n.toNat % stringCount 8 = n.toNat := Nat.mod_eq_of_lt n.toNat_lt
    refine ⟨_, rfl, length_littleEndian 8 _, ?_⟩
    simp only [scalarOf?, ofLittleEndian_littleEndian, whole, UInt64.ofNat_toNat]
  case i16.i16 n =>
    have whole : n.toUInt16.toNat % stringCount 2 = n.toUInt16.toNat :=
      Nat.mod_eq_of_lt n.toUInt16.toNat_lt
    refine ⟨_, rfl, length_littleEndian 2 _, ?_⟩
    simp only [scalarOf?, ofLittleEndian_littleEndian, whole, UInt16.ofNat_toNat,
      Int16.toInt16_toUInt16]
  case i32.i32 n =>
    have whole : n.toUInt32.toNat % stringCount 4 = n.toUInt32.toNat :=
      Nat.mod_eq_of_lt n.toUInt32.toNat_lt
    refine ⟨_, rfl, length_littleEndian 4 _, ?_⟩
    simp only [scalarOf?, ofLittleEndian_littleEndian, whole, UInt32.ofNat_toNat,
      Int32.toInt32_toUInt32]
  case i64.i64 n =>
    have whole : n.toUInt64.toNat % stringCount 8 = n.toUInt64.toNat :=
      Nat.mod_eq_of_lt n.toUInt64.toNat_lt
    refine ⟨_, rfl, length_littleEndian 8 _, ?_⟩
    simp only [scalarOf?, ofLittleEndian_littleEndian, whole, UInt64.ofNat_toNat,
      Int64.toInt64_toUInt64]
  all_goals cases scalar

theorem le_toNat_max_one (n : UInt32) : n.toNat ≤ (max n 1).toNat := by
  change n.toNat ≤ (if n ≤ 1 then 1 else n).toNat
  split
  case isTrue le => exact UInt32.le_iff_toNat_le.1 le
  case isFalse => exact Nat.le_refl _

section Serving

variable {view : View} {heap : Heap Engine} (serves : Serves view heap) {W : Set Nat}

include serves

/-! ### Values in place -/

/-- A value in place is read back, given that what a pointer of its type leads to is. -/
theorem fills_writeSlot {t : Ty} {v : Value} {alloc : Value → Engine UInt32}
    {read : LinearMemory → UInt32 → Except MemoryError Value} {address : UInt32}
    (shape : t.check v = .ok ())
    (inner : t.isScalar = false → Fills view ∅ (alloc v) fun p mem => Gives (read mem p) v)
    (covers : Covers W address t.size.toNat) :
    Fills view W (writeSlot heap alloc t v address) fun _ mem =>
      Gives (t.readSlot mem (read mem) address) v := by
  unfold writeSlot readSlot
  by_cases scalar : t.isScalar = true
  · obtain ⟨bs, written, size, shown⟩ := exists_scalarBytes? scalar shape
    simp only [if_pos scalar, shape, written]
    have stored := Fills.write serves (size.symm ▸ covers : Covers W address bs.length)
    have checked : Fills view W (heap.lift ((.ok () : Except ValueError Unit).mapError .value))
        fun _ _ => True := .lift serves fun _ _ _ => trivial
    refine checked.bind_same fun _ => stored.imp fun _ mem holds => ?_
    refine (holds.read size.symm).bind ?_
    rw [shown]
    exact gives_ok v
  · have pointer : t.isScalar = false := by simpa using scalar
    have four : t.size.toNat = 4 := by cases t <;> first | rfl | cases pointer
    simp only [pointer, Bool.false_eq_true, if_false]
    refine (inner pointer).bind (Set.empty_disjoint W) (by rw [Set.empty_union]) fun p _ _ => ?_
    refine (Fills.writeWord serves (four ▸ covers)).imp fun _ mem holds there => ?_
    exact holds.readWord.bind there

/-! ### Buffers -/

/-- A buffer is read back, unless its length leaves no room for the four bytes before it. -/
theorem fills_writeBuffer {bs : Bytes} (small : bs.length + 4 < UInt32.size) :
    Fills view ∅ (heap.writeBuffer bs) fun p mem => p ≠ 0 ∧ Gives (mem.readBuffer p) bs := by
  have short : bs.length < UInt32.size := by omega
  have length : (UInt32.ofNat bs.length).toNat = bs.length := UInt32.toNat_ofNat_of_lt' short
  have whole : (4 + UInt32.ofNat bs.length).toNat = 4 + bs.length := by
    rw [UInt32.toNat_add, length]
    exact Nat.mod_eq_of_lt (by rw [UInt32.size] at small; change 4 + _ < _; omega)
  unfold Heap.writeBuffer
  simp only [if_pos short]
  refine .alloc_bind serves fun p nonzero bounded _ => ?_
  rw [whole, Set.empty_union] at *
  have next : bs ≠ [] → (p + 4).toNat = p.toNat + 4 := by
    intro some
    have some := List.length_pos_iff.2 some
    rw [UInt32.toNat_add]
    refine Nat.mod_eq_of_lt ?_
    rw [UInt32.size] at bounded
    change p.toNat + 4 < _
    omega
  have body : Fills view (span (p.toNat + 4) bs.length) (heap.write (p + 4) bs) fun _ mem =>
      mem.Holds (p.toNat + 4) bs := by
    by_cases none : bs = []
    · subst none
      exact (Fills.write serves fun _ => by simp).imp fun _ _ _ => rfl
    · rw [← next none]
      exact .write serves (covers_span _ _)
  refine (Fills.writeWord serves (covers_span p 4)).bind (disjoint_span (Nat.le_refl _))
    (span_union_span _ _ _).subset fun _ _ _ => body.bind_pure fun _ mem stands head => ?_
  exact ⟨nonzero, head.readBuffer length stands⟩

/-! ### Sequences -/

section Sequences

variable {α : Type} {item : α → UInt32 → Engine Unit}
  {read : LinearMemory → UInt32 → Except MemoryError α} {stride : UInt32} {items : List α}

omit serves in
/-- Items that are written one after the other are read back one after the other. -/
theorem fills_writeStrided (each : ∀ a ∈ items, ∀ e : UInt32,
      e.toNat + stride.toNat ≤ UInt32.size → Fills view (span e.toNat stride.toNat) (item a e)
        fun _ mem => Gives (read mem e) a)
    (wide : 0 < stride.toNat) {n : Nat} {address : UInt32}
    (begins : items ≠ [] → address.toNat = n)
    (fits : n + items.length * stride.toNat ≤ UInt32.size) :
    Fills view (span n (items.length * stride.toNat)) (writeStrided item stride address items)
      fun _ mem => Gives (readStrided (read mem) stride address items.length) items := by
  induction items generalizing n address with
  | nil => exact .pure fun _ => gives_ok []
  | cons a rest ih =>
    obtain rfl := begins (List.cons_ne_nil a rest)
    rw [List.length_cons, Nat.succ_mul, Nat.add_comm (rest.length * stride.toNat)] at fits ⊢
    have next : rest ≠ [] → (address + stride).toNat = address.toNat + stride.toNat := by
      intro some
      obtain ⟨b, more, rfl⟩ := List.exists_cons_of_ne_nil some
      rw [List.length_cons, Nat.succ_mul] at fits
      rw [UInt32.toNat_add]
      refine Nat.mod_eq_of_lt ?_
      rw [UInt32.size] at fits
      omega
    have others := ih (fun b mem => each b (.tail _ mem)) next (by omega)
    refine (each a (.head _) address (by omega)).bind (disjoint_span (Nat.le_refl _))
      (span_union_span _ _ _).subset fun _ _ _ => others.imp fun _ mem tail first => ?_
    exact first.bind (tail.bind (gives_ok _))

omit serves in
/-- Items that are written to odd addresses only are within the area of all of them. -/
theorem fills_writeStrided_of_odd (each : ∀ a ∈ items, ∀ e : UInt32, e.toNat % 2 = 1 →
      Fills view W (item a e) fun _ _ => True)
    (even : stride.toNat % 2 = 0) {address : UInt32} (odd : address.toNat % 2 = 1) :
    Fills view W (writeStrided item stride address items) fun _ _ => True := by
  induction items generalizing address with
  | nil => exact .pure fun _ => trivial
  | cons a rest ih =>
    have next : (address + stride).toNat % 2 = 1 := by
      rw [UInt32.toNat_add]
      omega
    exact (each a (.head _) address odd).bind_same fun _ =>
      ih (fun b mem => each b (.tail _ mem)) next

/-- The record of a sequence is read back. -/
theorem fills_record (length data : UInt32) :
    Fills view ∅ (do
      let header ← heap.alloc 8
      heap.writeWord header length
      heap.writeWord (header + 4) data
      return header)
      fun p mem => p ≠ 0 ∧ Gives (mem.readWord p) length ∧ Gives (mem.readWord (p + 4)) data := by
  refine .alloc_bind serves fun p nonzero bounded _ => ?_
  have next : (p + 4).toNat = p.toNat + 4 := by
    rw [UInt32.toNat_add]
    refine Nat.mod_eq_of_lt ?_
    change p.toNat + 8 ≤ 2 ^ 32 at bounded
    change p.toNat + 4 < _
    omega
  have second : Fills view (span (p.toNat + 4) 4) (heap.writeWord (p + 4) data) fun _ mem =>
      mem.Holds (p + 4).toNat (littleEndian 4 data.toNat) := by
    rw [← next]
    exact .writeWord serves (covers_span _ _)
  have whole : span p.toNat 4 ∪ span (p.toNat + 4) 4 = ∅ ∪ span p.toNat (8 : UInt32).toNat := by
    rw [span_union_span, Set.empty_union]
    rfl
  refine (Fills.writeWord serves (covers_span p 4)).bind (disjoint_span (Nat.le_refl _))
    whole.subset fun _ _ _ => second.bind_pure fun _ mem there here => ?_
  exact ⟨nonzero, here.readWord, there.readWord⟩

/-- A sequence is read back. If its items had no room in 32 bits, the allocator would have handed
out everything but the address zero for them, and there would be no room for the record. -/
theorem fills_allocSequence (few : items.length ≤ Wire.maxLength) (wide : 0 < stride.toNat)
    (even : stride.toNat ≤ 2 ∨ stride.toNat % 2 = 0)
    (each : ∀ a ∈ items, ∀ e : UInt32, e.toNat + stride.toNat ≤ UInt32.size →
      Fills view (span e.toNat stride.toNat) (item a e) fun _ mem => Gives (read mem e) a)
    (loose : ∀ a ∈ items, ∀ (W : Set Nat) (e : UInt32), 2 < stride.toNat → e.toNat % 2 = 1 →
      span 1 (UInt32.size - 1) ⊆ W → Fills view W (item a e) fun _ _ => True) :
    Fills view ∅ (allocSequence heap item stride items) fun p mem =>
      p ≠ 0 ∧ Gives (mem.readWord p) (UInt32.ofNat items.length) ∧
      ∃ data, Gives (mem.readWord (p + 4)) data ∧
        Gives (readStrided (read mem) stride data items.length) items := by
  have short : items.length < UInt32.size := by
    rw [Wire.maxLength] at few
    rw [UInt32.size]
    omega
  have length : (UInt32.ofNat items.length).toNat = items.length := UInt32.toNat_ofNat_of_lt' short
  unfold allocSequence
  simp only [if_pos short, length]
  refine .alloc_bind serves fun data nonzero bounded _ => ?_
  rw [Set.empty_union]
  by_cases saturated : UInt32.size ≤ items.length * stride.toNat
  · -- the items had no room, so everything but the address zero has been handed out
    rw [Nat.min_eq_right (by omega)] at bounded ⊢
    have most := le_toNat_max_one (UInt32.ofNat (UInt32.size - 1))
    change UInt32.size - 1 ≤ _ at most
    have positive : 0 < data.toNat := Nat.pos_of_ne_zero fun h => nonzero (UInt32.toNat_inj.1 h)
    have first : data.toNat = 1 := by
      rw [UInt32.size] at bounded most
      omega
    have everything : span 1 (UInt32.size - 1) ⊆
        span data.toNat (max (UInt32.ofNat (UInt32.size - 1)) 1).toNat := by
      rw [first]
      exact span_subset (Nat.le_refl _) (Nat.add_le_add_left most _)
    have wider : 2 < stride.toNat := by
      by_contra narrow
      have product := Nat.mul_le_mul few (Nat.le_of_not_lt narrow)
      rw [Wire.maxLength] at product
      rw [UInt32.size] at saturated
      omega
    have written := @fills_writeStrided_of_odd view _ α item stride items
      (fun a mem e odd => loose a mem _ e wider odd everything) (by omega) data (by omega)
    refine written.bind_same fun _ => .alloc_bind serves fun header nonzero within apart => ?_
    have positive : 0 < header.toNat := Nat.pos_of_ne_zero fun h => nonzero (UInt32.toNat_inj.1 h)
    change header.toNat + 8 ≤ UInt32.size at within
    have inside : header.toNat ∈ span 1 (UInt32.size - 1) := mem_span.2 (by omega)
    have here : header.toNat ∈ span header.toNat (8 : UInt32).toNat :=
      mem_span.2 ⟨Nat.le_refl _, Nat.lt_add_of_pos_right (by decide)⟩
    exact absurd apart (not_disjoint_span (everything inside) here)
  · rw [Nat.min_eq_left (by omega)] at bounded ⊢
    have most := le_toNat_max_one (UInt32.ofNat (items.length * stride.toNat))
    rw [UInt32.toNat_ofNat_of_lt' (by omega)] at most
    have written := fills_writeStrided each wide (fun _ => (rfl : data.toNat = data.toNat))
      (by omega)
    refine (written.weaken (span_subset (Nat.le_refl _) (Nat.add_le_add_left most _))
      fun _ _ h => h).bind (Set.disjoint_empty _) (by rw [Set.union_empty]) fun _ _ _ => ?_
    refine (fills_record serves _ data).imp fun p mem record body => ?_
    exact ⟨record.1, record.2.1, data, record.2.2, body⟩

end Sequences

/-! ### Values behind pointers -/

omit serves in
/-- What a pointer of a type leads to is read back, and only null is at the address zero. -/
def Kept (view : View) (heap : Heap Engine) (t : Ty) : Prop :=
  ∀ v bs, t.Encodes v bs → t.isScalar = false → Fills view ∅ (t.allocValue heap v) fun p mem =>
    (v ≠ .null → p ≠ 0) ∧ Gives (t.readPointee mem p) v

omit serves in
/-- A value whose type is kept is read back in place. -/
theorem Kept.slot (serves : Serves view heap) {t : Ty} (kept : t.Kept view heap) {v : Value}
    {bs : Bytes} (h : t.Encodes v bs) {address : UInt32} (covers : Covers W address t.size.toNat) :
    Fills view W (writeSlot heap (t.allocValue heap) t v address) fun _ mem =>
      Gives (t.readSlot mem (t.readPointee mem) address) v :=
  @fills_writeSlot _ _ serves _ t v _ (fun mem => t.readPointee mem) _ h.check
    (fun pointer => (kept v bs h pointer).imp fun _ _ read => read.2) covers

theorem kept_of_isLeaf {t : Ty} (plain : t.isLeaf = true) : t.Kept view heap := by
  intro v bs h pointer
  have short {content : Bytes} (h : Wire.Codec.bytes.write content = .ok bs) :
      content.length + 4 < UInt32.size := by
    obtain ⟨length, counted, -⟩ := bind_eq_ok.1 h
    have few := (Wire.writeLength_eq_ok.1 counted).1
    rw [Wire.maxLength] at few
    rw [UInt32.size]
    omega
  cases t
  case string =>
    obtain ⟨shape, written⟩ := h
    cases v <;> try cases shape
    case string s =>
      refine (fills_writeBuffer serves (short written)).imp fun p mem here => ⟨fun _ => here.1, ?_⟩
      rw [readPointee, if_neg here.1]
      refine here.2.bind ?_
      rw [Utf8.decode_utf8]
      exact gives_ok _
  case bytes =>
    obtain ⟨shape, written⟩ := h
    cases v <;> try cases shape
    case bytes content =>
      refine (fills_writeBuffer serves (short written)).imp fun p mem here => ⟨fun _ => here.1, ?_⟩
      rw [readPointee, if_neg here.1]
      exact here.2.bind (gives_ok _)
  case jig demand =>
    obtain ⟨shape, -⟩ := h
    cases v <;> try cases shape
    case jig origin =>
      have small : origin.toBytes.length + 4 < UInt32.size := by
        rw [Pointer.length_toBytes]
        decide
      refine (fills_writeBuffer serves small).bind (Set.disjoint_empty _) (by rw [Set.union_empty])
        fun buffer _ _ => .alloc_bind serves fun p nonzero _ _ => ?_
      rw [Set.empty_union]
      refine (Fills.writeWord serves (covers_span p 4)).bind_pure fun _ mem stands there => ?_
      refine ⟨fun _ => nonzero, ?_⟩
      rw [readPointee, if_neg nonzero, readOrigin]
      have inner : Gives (readOrigin mem p) origin := by
        refine stands.readWord.bind ?_
        rw [if_neg there.1]
        refine there.2.bind ?_
        rw [Pointer.ofBytes_toBytes]
        exact gives_ok origin
      exact inner.bind (gives_ok _)
  case array | map | nullable | object => cases plain
  all_goals cases pointer

theorem Kept.array {t : Ty} (kept : t.Kept view heap) : (array t).Kept view heap := by
  intro x bs h _
  obtain ⟨items, chunks, length, rfl, each, counted, -⟩ := encodes_array.1 h
  have few := (Wire.writeLength_eq_ok.1 counted).1
  have encoded := ((List.forall₂_and_left _ _).1 (each.imp fun a chunk here =>
    (⟨⟨chunk, here⟩, here⟩ : (∃ chunk, t.Encodes a chunk) ∧ t.Encodes a chunk))).1
  have aligned := Layout.isAlignment_size t
  have written := @fills_allocSequence _ _ serves _ (writeSlot heap (t.allocValue heap) t)
    (fun mem => t.readSlot mem (t.readPointee mem)) t.size items few aligned.le.1
    (by rcases aligned with h | h | h | h <;> rw [h] <;> decide)
    (fun a mem e _ => by
      obtain ⟨chunk, here⟩ := encoded a mem
      exact kept.slot serves here (covers_span e _))
    (fun a mem W e _ odd inside => by
      obtain ⟨chunk, here⟩ := encoded a mem
      refine (kept.slot serves here fun fits => ?_).imp fun _ _ _ => trivial
      refine (span_subset ?_ ?_).trans inside <;> omega)
  refine written.imp fun p mem ⟨nonzero, head, data, second, body⟩ => ⟨fun _ => nonzero, ?_⟩
  rw [readPointee, if_neg nonzero]
  refine head.bind (second.bind (Gives.after ?_))
  rw [UInt32.toNat_ofNat_of_lt' (by rw [Wire.maxLength] at few; rw [UInt32.size]; omega)]
  exact body.bind (gives_ok _)

/-- The two parts of a map entry are read back. -/
theorem fills_entry {k v : Ty} (key : k.Kept view heap) (value : v.Kept view heap)
    {e : Value × Value} {pair : Bytes × Bytes} (h : EncodesEntry k v e pair) {base : UInt32}
    (fits : base.toNat + (entrySize k v).toNat ≤ UInt32.size) :
    Fills view (span base.toNat (entrySize k v).toNat)
      (do
        writeSlot heap (k.allocValue heap) k e.1 base
        writeSlot heap (v.allocValue heap) v e.2 (base + entryValueOffset k v))
      fun _ mem => Gives (do
        let key ← k.readSlot mem (k.readPointee mem) base
        let value ← v.readSlot mem (v.readPointee mem) (base + entryValueOffset k v)
        return (key, value)) e := by
  obtain ⟨behind, within, -⟩ := entry_cases k v
  have sized := (Layout.isAlignment_size v).le
  have place : (base + entryValueOffset k v).toNat = base.toNat + (entryValueOffset k v).toNat := by
    rw [UInt32.toNat_add]
    refine Nat.mod_eq_of_lt ?_
    rw [UInt32.size] at fits
    omega
  have first := key.slot serves h.1 (covers_span base _)
  have second := value.slot serves h.2 (covers_span (base + entryValueOffset k v) _)
  rw [place] at second
  refine first.bind (disjoint_span (Nat.add_le_add_left behind _)) (Set.union_subset ?_ ?_)
    fun _ _ _ => second.imp fun _ mem there here => here.bind (there.bind (gives_ok _))
  · exact span_subset (Nat.le_refl _) (by omega)
  · exact span_subset (Nat.le_add_right _ _) (by omega)

/-- An entry at an odd address has both of its parts at odd addresses. -/
theorem fills_entry_of_odd {k v : Ty} (key : k.Kept view heap) (value : v.Kept view heap)
    {e : Value × Value} {pair : Bytes × Bytes} (h : EncodesEntry k v e pair) {base : UInt32}
    (wide : 2 < (entrySize k v).toNat) (odd : base.toNat % 2 = 1)
    (inside : span 1 (UInt32.size - 1) ⊆ W) :
    Fills view W
      (do
        writeSlot heap (k.allocValue heap) k e.1 base
        writeSlot heap (v.allocValue heap) v e.2 (base + entryValueOffset k v))
      fun _ _ => True := by
  obtain ⟨-, -, shape⟩ := entry_cases k v
  have odd' : (base + entryValueOffset k v).toNat % 2 = 1 := by
    rw [UInt32.toNat_add]
    omega
  have covers {address : UInt32} {n : Nat} (odd : address.toNat % 2 = 1) : Covers W address n := by
    intro fits
    refine (span_subset ?_ ?_).trans inside <;> omega
  have first := key.slot serves h.1 (covers odd)
  have second := value.slot serves h.2 (covers odd')
  exact first.bind_same fun _ => second.imp fun _ _ _ => trivial

theorem Kept.map {k v : Ty} (key : k.Kept view heap) (value : v.Kept view heap) :
    (map k v).Kept view heap := by
  intro x bs h _
  obtain ⟨entries, pairs, length, rfl, each, -, counted, -⟩ := encodes_map.1 h
  have few : entries.length ≤ Wire.maxLength :=
    each.length_eq ▸ (Wire.writeLength_eq_ok.1 counted).1
  have encoded := ((List.forall₂_and_left _ _).1 (each.imp fun e pair here =>
    (⟨⟨pair, here⟩, here⟩ : (∃ pair, EncodesEntry k v e pair) ∧ EncodesEntry k v e pair))).1
  obtain ⟨behind, within, shape⟩ := entry_cases k v
  have sized := (Layout.isAlignment_size k).le
  have written := @fills_allocSequence _ _ serves _
    (fun (e : Value × Value) base => do
      writeSlot heap (k.allocValue heap) k e.1 base
      writeSlot heap (v.allocValue heap) v e.2 (base + entryValueOffset k v))
    (fun mem base => do
      let key ← k.readSlot mem (k.readPointee mem) base
      let value ← v.readSlot mem (v.readPointee mem) (base + entryValueOffset k v)
      return (key, value))
    (entrySize k v) entries few (by omega) (by omega)
    (fun e mem base fits =>
      have ⟨pair, here⟩ := encoded e mem
      fills_entry serves key value here fits)
    (fun e mem W base wide odd inside =>
      have ⟨pair, here⟩ := encoded e mem
      fills_entry_of_odd serves key value here wide odd inside)
  refine written.imp fun p mem ⟨nonzero, head, data, second, body⟩ => ⟨fun _ => nonzero, ?_⟩
  rw [readPointee, if_neg nonzero]
  refine head.bind (second.bind (Gives.after ?_))
  rw [UInt32.toNat_ofNat_of_lt' (by rw [Wire.maxLength] at few; rw [UInt32.size]; omega)]
  exact body.bind (gives_ok _)

/-- Null is at the address zero, and other values of a nullable type are like those of the type that
was made nullable. -/
theorem Kept.nullable {t : Ty} (kept : t.Kept view heap) : (nullable t).Kept view heap := by
  intro v bs h _
  obtain ⟨rfl, -⟩ | ⟨present, inner, h, -⟩ := encodes_nullable.1 h
  · refine .pure fun mem => ⟨fun absent => absurd rfl absent, ?_⟩
    exact gives_ok _
  have alloc : (Ty.nullable t).allocValue heap v =
      if t.isScalar then do
        let address ← heap.alloc t.size
        writeSlot heap (t.allocValue heap) t v address
        return address
      else t.allocValue heap v := by
    cases v <;> first | rfl | exact absurd rfl present
  rw [alloc]
  by_cases scalar : t.isScalar = true
  · rw [if_pos scalar]
    refine .alloc_bind serves fun p nonzero _ _ => ?_
    rw [Set.empty_union]
    refine (kept.slot serves h (covers_span p _)).bind_pure fun _ mem read => ⟨fun _ => nonzero, ?_⟩
    rw [readPointee, if_neg nonzero, if_pos scalar]
    rwa [readSlot, if_pos scalar] at read
  · rw [if_neg scalar]
    refine (kept v inner h (by simpa using scalar)).imp fun p mem here => ⟨here.1, ?_⟩
    rw [readPointee, if_neg (here.1 present), if_neg scalar]
    exact here.2

/-! ### Fields -/

omit serves in
/-- Each field that is read has the value of a row. -/
def GivesEach (mem : LinearMemory) (fields : List Field) (base : UInt32) (values : List Value) :
    Prop :=
  List.Forall₂ (fun f v => Gives (f.ty.readValue mem (base + f.offset)) v) fields values

omit serves in
/-- Fields that are read one after the other have the values of the row. -/
theorem GivesEach.row {mem : LinearMemory} {fields : List Field} {base : UInt32}
    {values : List Value} (h : GivesEach mem fields base values) :
    Gives (readFieldsAt mem fields base) values := by
  induction h with
  | nil => exact gives_ok []
  | cons first _ ih => exact first.bind (ih.bind (gives_ok _))

/-- The values of fields that stand one behind the other are read back. -/
theorem fills_writeFieldsAt {fields : List Field} (kept : ∀ f ∈ fields, f.ty.Kept view heap)
    {values : List Value} {bs : Bytes} (row : EncodesRow (fields.map (·.ty)) values bs)
    {base : UInt32} {start finish : Nat} (spaced : Layout.Spaced start fields finish)
    (room : base.toNat + finish ≤ UInt32.size) :
    Fills view (Set.Ico (base.toNat + start) (base.toNat + finish))
      (writeFieldsAt heap fields values base)
      fun _ mem => GivesEach mem fields base values := by
  induction fields generalizing values bs start with
  | nil =>
    cases values <;> cases row
    exact .pure fun _ => .nil
  | cons f fields ih =>
    cases values with
    | nil => cases row
    | cons v values =>
      obtain ⟨first, others, here, more, rfl⟩ := row
      obtain ⟨behind, rest⟩ := spaced
      have sized := (Layout.isAlignment_size f.ty).le
      have within := rest.le
      have place : (base + f.offset).toNat = base.toNat + f.offset.toNat := by
        rw [UInt32.toNat_add]
        refine Nat.mod_eq_of_lt ?_
        rw [UInt32.size] at room
        omega
      have slot := (kept f (.head _)).slot serves here (covers_span (base + f.offset) _)
      have tail := ih (fun g mem => kept g (.tail _ mem)) more rest
      rw [place] at slot
      have apart : Disjoint (span (base.toNat + f.offset.toNat) f.ty.size.toNat)
          (Set.Ico (base.toNat + (f.offset.toNat + f.ty.size.toNat)) (base.toNat + finish)) := by
        rw [Set.disjoint_left]
        intro a ha hb
        rw [mem_span] at ha
        rw [Set.mem_Ico] at hb
        omega
      refine slot.bind apart ?_ fun _ _ _ => tail.imp fun _ mem rest first => .cons first rest
      rintro a (ha | hb)
      · rw [mem_span] at ha
        rw [Set.mem_Ico]
        omega
      · rw [Set.mem_Ico] at hb ⊢
        omega

theorem Kept.object {name : String} {fields : List Field} {size : UInt32}
    (spaced : Layout.Spaced 0 fields size.toNat) (kept : ∀ f ∈ fields, f.ty.Kept view heap) :
    (object name fields size).Kept view heap := by
  intro x bs h _
  obtain ⟨values, rfl, row⟩ := encodes_object.1 h
  have most := le_toNat_max_one size
  rw [allocValue]
  have checked : Fills view ∅ (heap.lift
      (((Ty.object name fields size).check (.object values)).mapError .value)) fun _ _ => True :=
    .lift serves fun _ _ _ => trivial
  refine checked.bind_same fun _ => .alloc_bind serves fun p nonzero bounded _ => ?_
  have room : p.toNat + size.toNat ≤ UInt32.size := by omega
  have written := fills_writeFieldsAt serves kept row spaced room
  refine (written.weaken ?_ fun _ _ h => h).bind_pure fun _ mem read => ⟨fun _ => nonzero, ?_⟩
  · intro a ha
    rw [Set.mem_Ico] at ha
    refine .inr (mem_span.2 ?_)
    omega
  · rw [readPointee, if_neg nonzero]
    exact read.row.bind (gives_ok _)

/-- Values of all types that are laid out are kept. -/
theorem Laid.kept {t : Ty} (h : t.Laid) : t.Kept view heap := by
  induction h with
  | leaf plain => exact kept_of_isLeaf serves plain
  | array _ ih => exact ih.array serves
  | map plain _ ih => exact (kept_of_isLeaf serves plain).map serves ih
  | nullable _ ih => exact ih.nullable serves
  | object spaced _ ih => exact .object serves spaced ih

end Serving

end JigLedger.Ty
