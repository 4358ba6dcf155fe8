import JigLedger.Engine.Execution

/-!
# Values in the memory of guests

Writing a value to the memory of a guest is asking its allocator for room and writing bytes, one
after the other. So a property that computations keep when they are put together holds of writing
any value, as soon as it holds of these two and of failing.
-/

namespace JigLedger.Engine

/-- A property of computations that they keep when they are put together. -/
structure Composable (P : (α : Type) → (Context → Engine α) → Prop) : Prop where
  pure : ∀ {α : Type} (a : α), P α fun _ => pure a
  bind : ∀ {α β : Type} {m : Context → Engine α} {f : α → Context → Engine β}, P α m →
    (∀ a, P β (f a)) → P β fun c => m c >>= fun a => f a c

/-- The operations of a heap have a property. -/
structure OfHeap (P : (α : Type) → (Context → Engine α) → Prop) (heap : Context → Heap Engine) :
    Prop extends Composable P where
  alloc : ∀ size, P _ fun c => (heap c).alloc size
  write : ∀ address bs, P _ fun c => (heap c).write address bs
  fail : ∀ {α : Type} e, P α fun c => (heap c).fail e

namespace OfHeap

variable {P : (α : Type) → (Context → Engine α) → Prop} {heap : Context → Heap Engine} {α : Type}

theorem lift (h : OfHeap P heap) (x : Except MemoryError α) :
    P _ fun c => (heap c).lift x := by
  cases x
  · exact h.fail _
  · exact h.pure _

theorem writeWord (h : OfHeap P heap) (address value : UInt32) :
    P _ fun c => (heap c).writeWord address value := h.write _ _

theorem writeBuffer (h : OfHeap P heap) (bs : Bytes) :
    P _ fun c => (heap c).writeBuffer bs := by
  unfold Heap.writeBuffer
  split
  · exact h.bind (h.alloc _) fun address => h.bind (h.writeWord _ _) fun _ =>
      h.bind (h.write _ _) fun _ => h.pure address
  · exact h.fail _

theorem writeSlot (h : OfHeap P heap) {alloc : Value → Context → Engine UInt32} (t : Ty)
    (v : Value) (address : UInt32) (ha : P _ (alloc v)) :
    P _ fun c => Ty.writeSlot (heap c) (fun v => alloc v c) t v address := by
  unfold Ty.writeSlot
  split
  · refine h.bind (h.lift _) fun _ => ?_
    split
    · exact h.write _ _
    · exact h.fail _
  · exact h.bind ha fun _ => h.writeWord _ _

theorem writeStrided (h : Composable P) {item : α → UInt32 → Context → Engine Unit}
    (stride : UInt32) : ∀ (items : List α) (address : UInt32),
      (∀ a ∈ items, ∀ address, P _ (item a address)) →
        P _ fun c => Ty.writeStrided (fun a address => item a address c) stride address items
  | [], _, _ => h.pure _
  | a :: rest, address, hi => by
    unfold Ty.writeStrided
    exact h.bind (hi a (.head _) address) fun _ =>
      writeStrided h stride rest _ fun b hb => hi b (.tail _ hb)

theorem allocSequence (h : OfHeap P heap) {item : α → UInt32 → Context → Engine Unit}
    (stride : UInt32) (items : List α)
    (hi : ∀ a ∈ items, ∀ address, P _ (item a address)) :
    P _ fun c => Ty.allocSequence (heap c) (fun a address => item a address c) stride items := by
  unfold Ty.allocSequence
  split
  · exact h.bind (h.alloc _) fun data =>
      h.bind (writeStrided h.toComposable stride items data hi) fun _ =>
        h.bind (h.alloc 8) fun header => h.bind (h.writeWord _ _) fun _ =>
          h.bind (h.writeWord _ _) fun _ => h.pure header
  · exact h.fail _

mutual

theorem allocValue (h : OfHeap P heap) :
    ∀ (t : Ty) (v : Value), P _ fun c => t.allocValue (heap c) v
  | .string, v => by
    cases v <;> simp only [Ty.allocValue] <;> first | exact h.writeBuffer _ | exact h.fail _
  | .bytes, v => by
    cases v <;> simp only [Ty.allocValue] <;> first | exact h.writeBuffer _ | exact h.fail _
  | .array t, v => by
    have item := fun v => allocValue h t v
    cases v <;> simp only [Ty.allocValue]
    case array items =>
      exact h.allocSequence _ items fun v _ address => h.writeSlot t v address (item v)
    all_goals exact h.fail _
  | .map k t, v => by
    have key := fun v => allocValue h k v
    have value := fun v => allocValue h t v
    cases v <;> simp only [Ty.allocValue]
    case map entries =>
      exact h.allocSequence _ entries fun e _ base =>
        h.bind (h.writeSlot k e.1 base (key e.1)) fun _ => h.writeSlot t e.2 _ (value e.2)
    all_goals exact h.fail _
  | .nullable t, v => by
    have inner := fun v => allocValue h t v
    cases v <;> simp only [Ty.allocValue]
    case null => exact h.pure _
    all_goals
      split
      · exact h.bind (h.alloc _) fun address =>
          h.bind (h.writeSlot t _ address (inner _)) fun _ => h.pure address
      · exact inner _
  | .object name fields size, v => by
    have write := fun values base => writeFieldsAt h fields values base
    cases v <;> simp only [Ty.allocValue]
    case object values =>
      exact h.bind (h.lift _) fun _ => h.bind (h.alloc _) fun address =>
        h.bind (write values address) fun _ => h.pure address
    all_goals exact h.fail _
  | .jig demand, v => by
    cases v <;> simp only [Ty.allocValue]
    case jig origin =>
      exact h.bind (h.writeBuffer _) fun buffer => h.bind (h.alloc 4) fun record =>
        h.bind (h.writeWord _ _) fun _ => h.pure record
    all_goals exact h.fail _
  | .bool, v | .u8, v | .u16, v | .u32, v | .u64, v | .i8, v | .i16, v | .i32, v | .i64, v => by
    simp only [Ty.allocValue]
    exact h.fail _

theorem writeFieldsAt (h : OfHeap P heap) : ∀ (fields : List Field) (values : List Value)
    (base : UInt32), P _ fun c => Ty.writeFieldsAt (heap c) fields values base
  | [], _, _ => by
    simp only [Ty.writeFieldsAt]
    exact h.pure _
  | _ :: _, [], _ => by
    simp only [Ty.writeFieldsAt]
    exact h.pure _
  | ⟨name, t, offset⟩ :: fields, v :: values, base => by
    have first := allocValue h t v
    have rest := writeFieldsAt h fields values base
    simp only [Ty.writeFieldsAt]
    exact h.bind (h.writeSlot t v _ first) fun _ => rest

end

theorem writeRecord (h : OfHeap P heap) (fields : List Field) (values : List Value)
    (base : UInt32) : P _ fun c => Ty.writeRecord (heap c) fields values base := by
  unfold Ty.writeRecord
  split
  · exact h.writeFieldsAt fields values base
  · exact h.fail _

theorem writeOrigin (h : OfHeap P heap) (address : UInt32) (origin : Pointer) :
    P _ fun c => Ty.writeOrigin (heap c) address origin :=
  h.bind (h.writeBuffer _) fun _ => h.writeWord _ _

theorem lower (h : OfHeap P heap) (t : Ty) (v : Value) : P _ fun c => t.lower (heap c) v := by
  unfold Ty.lower
  refine h.bind (h.lift _) fun _ => ?_
  cases v
  case string | bytes | array | map | null | object | jig =>
    exact h.bind (h.allocValue t _) fun _ => h.pure _
  all_goals exact h.pure _

end OfHeap

end JigLedger.Engine
