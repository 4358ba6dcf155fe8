import JigLedger.Proofs.Value.Bump

/-!
# What a memory that grows hands out

A memory that grows hands out its bytes in order. It makes sure that the end of what is asked for is
a 32-bit word, but not that this is still so when the end has been rounded up to the alignment. So
an operation that asks for some of the last seven bytes makes the memory begin anew: it is empty
then, and hands out address zero next. As long as none does, whatever is handed out is apart from
all that was handed out before, and nothing is lost.
-/

namespace JigLedger.BumpMemory

/-- The end of an allocation is a word, but rounded up to the alignment it is not. -/
def Overshoots (b : BumpMemory) (size : UInt32) : Prop :=
  b.next.toNat + size.toNat < UInt32.size ∧
    UInt32.size ≤ Layout.roundUp (b.next.toNat + size.toNat) 8

instance (b : BumpMemory) (size : UInt32) : Decidable (b.Overshoots size) :=
  inferInstanceAs (Decidable (_ ∧ _))

/-! ### Operations -/

/-- What can be asked of a memory. -/
inductive Operation where
  | alloc (size : UInt32)
  | write (address : UInt32) (bs : Bytes)
  | writeBuffer (bs : Bytes)

namespace Operation

/-- Carries an operation out. The result is the address that it hands out, if it does. -/
def run : Operation → Run (Option UInt32)
  | alloc size => do return some (← heap.alloc size)
  | write address bs => do
    heap.write address bs
    return none
  | writeBuffer bs => do return some (← heap.writeBuffer bs)

/-- The number of bytes that are to be handed out. -/
def room : Operation → Nat
  | alloc size => size.toNat
  | write _ _ => 0
  | writeBuffer bs => 4 + bs.length

/-- The word that the allocator is given for this number. -/
def demand : Operation → Option UInt32
  | alloc size => some size
  | write _ _ => none
  | writeBuffer bs =>
    if bs.length < UInt32.size then some (4 + UInt32.ofNat bs.length) else none

/-- The bytes that an operation is meant to change, among those that are there already. -/
def target : Operation → Set Nat
  | write address bs => span address.toNat bs.length
  | _ => ∅

/-- The bytes of a buffer are counted by a word, but not along with the four of their number. -/
def IsOverlong (op : Operation) : Prop := ∃ size ∈ op.demand, UInt32.size ≤ op.room

/-- What is left to be done at the address that was allocated. -/
def fill : Operation → UInt32 → Run (Option UInt32)
  | writeBuffer bs, address => do
    heap.writeWord address (UInt32.ofNat bs.length)
    heap.write (address + 4) bs
    return some address
  | _, address => return some address

end Operation

/-- Bytes that have been handed out. -/
structure Area where
  address : UInt32
  size : Nat

/-- The addresses of these bytes. -/
def Area.bytes (a : Area) : Set Nat := span a.address.toNat a.size

/-- A memory, and what it has handed out so far. -/
structure Usage where
  bump : BumpMemory
  areas : List Area

namespace Usage

/-- Nothing has been handed out yet. -/
def fresh : Usage := ⟨.empty, []⟩

/-- What an operation gives. -/
def outcome (u : Usage) (op : Operation) : Except MemoryError (Option UInt32) :=
  (u.bump.runOn op.run).1

/-- What an operation hands out. -/
def handed (u : Usage) (op : Operation) : List Area :=
  match u.outcome op with
  | .ok (some address) => [⟨address, op.room⟩]
  | _ => []

/-- The memory after an operation, whether it succeeds or not. -/
def after (u : Usage) (op : Operation) : Usage :=
  ⟨(u.bump.runOn op.run).2, u.handed op ++ u.areas⟩

/-- An operation does as it should: the memory does not shrink, and what is handed out has an address
that is not null and aligned, is inside the memory, and apart from all that was handed out before.
-/
structure Behaves (u : Usage) (op : Operation) : Prop where
  grows : u.bump.memory.size ≤ (u.after op).bump.memory.size
  nonzero : ∀ a ∈ u.handed op, a.address ≠ 0
  aligned : ∀ a ∈ u.handed op, a.address.toNat % 8 = 0
  inside : ∀ a ∈ u.handed op, a.address.toNat + a.size ≤ (u.after op).bump.memory.size
  apart : ∀ a ∈ u.handed op, ∀ other ∈ u.areas, Disjoint a.bytes other.bytes
  /-- The bytes that were there stay, but for those that are to be written. -/
  kept : LinearMemory.AgreesOn (span 0 u.bump.memory.size \ op.target) u.bump.memory
    (u.after op).bump.memory
  /-- An operation that fails leaves these as well. -/
  refused : ∀ e, u.outcome op = .error e → LinearMemory.AgreesOn (span 0 u.bump.memory.size)
    u.bump.memory (u.after op).bump.memory

/-- The words that an operation computes are the numbers they stand for: the room that it asks for,
the next address to hand out, and the address behind the length of a buffer. -/
structure Exact (u : Usage) (op : Operation) : Prop where
  room : ∀ size ∈ op.demand, size.toNat = op.room
  next : ∀ size ∈ op.demand, ∀ address b, u.bump.alloc size = .ok (address, b) →
    b.next.toNat = Layout.roundUp (u.bump.next.toNat + size.toNat) 8
  behind : (u.bump.next + 4).toNat = u.bump.next.toNat + 4

/-- The allocator is asked for more than what can be rounded up. -/
def Overruns (u : Usage) (op : Operation) : Prop := ∃ size ∈ op.demand, u.bump.Overshoots size

instance (u : Usage) (op : Operation) : Decidable (u.Overruns op) :=
  inferInstanceAs (Decidable (∃ size ∈ op.demand, u.bump.Overshoots size))

end Usage

/-- Something holds of each operation of a sequence and of the memory that it is carried out on. -/
def Each (P : Usage → Operation → Prop) : Usage → List Operation → Prop
  | _, [] => True
  | u, op :: rest => P u op ∧ Each P (u.after op) rest

instance {P : Usage → Operation → Prop} [∀ u op, Decidable (P u op)] :
    (u : Usage) → (ops : List Operation) → Decidable (Each P u ops)
  | _, [] => .isTrue trivial
  | u, op :: rest =>
    have := instDecidableEach (P := P) (u.after op) rest
    inferInstanceAs (Decidable (P u op ∧ Each P (u.after op) rest))

/-- Two facts hold of the same sequences if one of them keeps an invariant under which they are the
same. -/
theorem each_iff {P Q : Usage → Operation → Prop} {I : Usage → Prop} {u : Usage}
    (same : ∀ u op, I u → (P u op ↔ Q u op)) (keeps : ∀ u op, I u → Q u op → I (u.after op))
    (start : I u) (ops : List Operation) : Each P u ops ↔ Each Q u ops := by
  -- Induction on the operations; the invariant is handed on through what `Q` says of the first one.
  induction ops generalizing u with
  | nil => exact .rfl
  | cons op rest ih =>
    rw [Each, Each, same u op start]
    exact and_congr_right fun here => ih (keeps u op start here)

/-! ### Filling -/

section Filling

variable {α β : Type} {b b' : BumpMemory} {m : Run α} {f : α → Run β} {n : Nat}
  {address : UInt32} {bs : Bytes}

/-- A memory may have got other bytes from an address on. -/
structure FilledFrom (n : Nat) (b b' : BumpMemory) : Prop where
  next : b'.next = b.next
  size : b'.memory.size = b.memory.size
  kept : LinearMemory.AgreesOn (span 0 n) b.memory b'.memory

namespace FilledFrom

theorem refl (n : Nat) (b : BumpMemory) : FilledFrom n b b := ⟨rfl, rfl, Set.eqOn_refl _ _⟩

theorem trans {b'' : BumpMemory} (h : FilledFrom n b b') (h' : FilledFrom n b' b'') :
    FilledFrom n b b'' :=
  ⟨h'.next.trans h.next, h'.size.trans h.size, h.kept.trans h'.kept⟩

theorem write (behind : n ≤ address.toNat) :
    FilledFrom n b (b.runOn (heap.write address bs)).2 := by
  by_cases within : address.toNat + bs.length ≤ b.memory.size
  · rw [runOn_write within]
    refine ⟨rfl, LinearMemory.size_overwrite _ _ _, LinearMemory.agreesOn_overwrite ?_⟩
    exact disjoint_span (by omega)
  · obtain ⟨e, failed⟩ := exists_runOn_write_eq within
    rw [failed]
    exact .refl n b

theorem bind (first : FilledFrom n b (b.runOn m).2)
    (second : ∀ a b', FilledFrom n b' (b'.runOn (f a)).2) :
    FilledFrom n b (b.runOn (m >>= f)).2 := by
  rcases run : b.runOn m with ⟨e | a, b'⟩
  · rw [run] at first
    rwa [runOn_bind_of_error run]
  · rw [run] at first
    rw [runOn_bind_of_ok run]
    exact first.trans (second a b')

theorem isSound (h : FilledFrom n b b') (sound : b.IsSound) : b'.IsSound := by
  constructor
  · rw [h.size, h.next, sound.size]
  · rw [h.next]
    exact sound.aligned
  · rw [h.next]
    exact sound.start

/-- Filling what was allocated changes no bytes before it. -/
theorem fill (op : Operation) (here : n ≤ address.toNat) (behind : n ≤ (address + 4).toNat) :
    FilledFrom n b (b.runOn (op.fill address)).2 := by
  cases op with
  | alloc => exact .refl n b
  | write => exact .refl n b
  | writeBuffer bs => exact (write here).bind fun _ _ => (write behind).bind fun _ b => .refl n b

end FilledFrom

end Filling

/-! ### Allocating -/

section Allocating

variable {b b' : BumpMemory} {size : UInt32}

/-- Rounding up a sum of which one part is aligned. -/
theorem roundUp_add {m : Nat} (aligned : m % 8 = 0) (n : Nat) :
    Layout.roundUp (m + n) 8 = m + taken n := by
  rw [taken, Layout.roundUp, Layout.roundUp]
  omega

/-- The last seven addresses are rounded up to zero. -/
theorem alignUp_eq_zero {finish : UInt32} (last : limit < finish.toNat) :
    Layout.alignUp finish allocAlign = 0 := by
  have most : limit = 4294967288 := rfl
  have small := finish.toNat_lt
  have odd : finish % allocAlign ≠ 0 := by
    intro even
    have even := congrArg UInt32.toNat even
    simp only [allocAlign, UInt32.toNat_mod, UInt32.reduceToNat] at even
    omega
  rw [Layout.alignUp, if_neg (by decide), if_neg odd, ← UInt32.toNat_inj]
  simp only [allocAlign, UInt32.toNat_mul, UInt32.toNat_add, UInt32.toNat_div, UInt32.reduceToNat]
  omega

/-- There is always an address behind the length of a buffer. -/
theorem IsSound.toNat_next_add_four (h : b.IsSound) : (b.next + 4).toNat = b.next.toNat + 4 := by
  have aligned := h.aligned
  have small := b.next.toNat_lt
  refine Layout.toNat_add_of_lt ?_
  change b.next.toNat + 4 < 4294967296
  omega

/-- An allocation fails, or it takes its room behind all that is there. -/
theorem IsSound.alloc_cases (h : b.IsSound) (fits : ¬ b.Overshoots size) :
    (∃ e, b.alloc size = .error e) ∨ ∃ b', b.alloc size = .ok (b.next, b') ∧ b'.IsSound ∧
      b'.next.toNat = b.next.toNat + taken size.toNat ∧
      LinearMemory.AgreesOn (span 0 b.next.toNat) b.memory b'.memory := by
  by_cases word : b.next.toNat + size.toNat < UInt32.size
  · refine .inr (h.alloc ?_)
    have below : b.next.toNat + taken size.toNat < UInt32.size := by
      rw [← roundUp_add h.aligned]
      exact Nat.lt_of_not_le fun past => fits ⟨word, past⟩
    have aligned := h.aligned
    rw [taken, Layout.roundUp] at below ⊢
    rw [UInt32.size] at below
    rw [limit, UInt32.size]
    omega
  · exact .inl ⟨_, by rw [BumpMemory.alloc, if_neg word]⟩

/-- The end of such an allocation is rounded up to zero, and there the memory ends then. -/
theorem Overshoots.alloc (h : b.Overshoots size) :
    b.alloc size = .ok (b.next, ⟨b.memory.resize 0, 0⟩) := by
  obtain ⟨word, past⟩ := h
  have sum := Layout.toNat_add_of_lt word
  have last : limit < (b.next + size).toNat := by
    rw [sum, limit]
    rw [UInt32.size] at word past ⊢
    rw [Layout.roundUp] at past
    omega
  rw [BumpMemory.alloc, if_pos word, alignUp_eq_zero last]
  rfl

end Allocating

/-! ### What operations do -/

namespace Usage

variable {u : Usage} {op : Operation} {size address : UInt32} {b : BumpMemory}

/-- Everything that has been handed out is inside the memory. -/
structure Sound (u : Usage) : Prop where
  bump : u.bump.IsSound
  areas : ∀ a ∈ u.areas, a.address.toNat + a.size ≤ u.bump.next.toNat

theorem sound_fresh : fresh.Sound := ⟨isSound_empty, nofun⟩

theorem mem_handed {a : Area} :
    a ∈ u.handed op ↔ ∃ address, u.outcome op = .ok (some address) ∧ a = ⟨address, op.room⟩ := by
  rw [handed]
  split
  case h_1 address found =>
    rw [List.mem_singleton, found]
    exact ⟨fun same => ⟨address, rfl, same⟩, fun ⟨_, same, h⟩ => by cases same; exact h⟩
  case h_2 other =>
    exact ⟨nofun, fun ⟨address, found, _⟩ => absurd found (other address)⟩

/-- What asks the allocator for a word goes on with the address that it is given. -/
theorem runOn_run (demanded : op.demand = some size) :
    b.runOn op.run = b.runOn (heap.alloc size >>= op.fill) := by
  cases op with
  | alloc =>
    cases demanded
    rfl
  | write => cases demanded
  | writeBuffer bs =>
    rw [Operation.demand] at demanded
    split at demanded
    case isFalse => cases demanded
    case isTrue short =>
      cases demanded
      rw [Operation.run, Heap.writeBuffer, if_pos short]
      simp only [bind_assoc, pure_bind]
      rfl

theorem runOn_run_of_alloc (demanded : op.demand = some size)
    (allocated : u.bump.alloc size = .ok (address, b)) :
    u.bump.runOn op.run = b.runOn (op.fill address) := by
  rw [runOn_run demanded, runOn_bind_of_ok (runOn_alloc allocated)]

/-- What is filled has been allocated, and is inside the memory. -/
theorem inside_of_fill (demanded : op.demand = some size)
    (room : address.toNat + size.toNat ≤ b.memory.size)
    (behind : (address + 4).toNat = address.toNat + 4) {other : UInt32} {b' : BumpMemory}
    (filled : b.runOn (op.fill address) = (.ok (some other), b')) :
    other = address ∧ address.toNat + op.room ≤ b.memory.size := by
  cases op with
  | alloc =>
    cases demanded
    cases filled
    exact ⟨rfl, room⟩
  | write => cases demanded
  | writeBuffer bs =>
    obtain ⟨_, b₁, first, rest⟩ := exists_of_runOn_bind filled
    obtain ⟨_, b₂, second, last⟩ := exists_of_runOn_bind rest
    -- The second write has succeeded, so the bytes are inside, however many they are.
    have same : (b.runOn (heap.writeWord address (UInt32.ofNat bs.length))).2.memory.size =
        b.memory.size := (FilledFrom.write (Nat.zero_le _)).size
    rw [first] at same
    have within : (address + 4).toNat + bs.length ≤ b₁.memory.size := by
      refine Decidable.of_not_not fun outside => ?_
      obtain ⟨e, failed⟩ := exists_runOn_write_eq outside
      cases failed.symm.trans second
    cases last
    rw [behind] at within
    change b₁.memory.size = _ at same
    exact ⟨rfl, by rw [Operation.room]; omega⟩

namespace Sound

/-- What there is to show of an operation: it hands out room behind all that is there, and leaves
that as it is. -/
theorem behaves (h : u.Sound) (sound : (u.after op).bump.IsSound)
    (grows : u.bump.next.toNat ≤ (u.after op).bump.next.toNat)
    (handed : ∀ a ∈ u.handed op, a.address = u.bump.next ∧
      a.address.toNat + a.size ≤ (u.after op).bump.next.toNat)
    (kept : LinearMemory.AgreesOn (span 0 u.bump.next.toNat \ op.target) u.bump.memory
      (u.after op).bump.memory)
    (refused : ∀ e, u.outcome op = .error e → LinearMemory.AgreesOn (span 0 u.bump.next.toNat)
      u.bump.memory (u.after op).bump.memory) :
    u.Behaves op ∧ (u.after op).Sound := by
  have start := h.bump.start
  constructor
  · constructor
    case grows => rwa [h.bump.size, sound.size]
    case nonzero =>
      intro a ha zero
      rw [← (handed a ha).1, zero] at start
      exact absurd start (by decide)
    case aligned =>
      intro a ha
      rw [(handed a ha).1]
      exact h.bump.aligned
    case inside =>
      intro a ha
      rw [sound.size]
      exact (handed a ha).2
    case apart =>
      intro a ha other there
      refine (disjoint_span ?_).symm
      rw [(handed a ha).1]
      exact h.areas other there
    case kept => rwa [h.bump.size]
    case refused => rwa [h.bump.size]
  · refine ⟨sound, fun a ha => ?_⟩
    rcases List.mem_append.1 ha with ha | ha
    · exact (handed a ha).2
    · exact Nat.le_trans (h.areas a ha) grows

/-- An operation that fails without having done anything does as it should. -/
theorem behaves_of_error (h : u.Sound) {e : MemoryError}
    (failed : u.bump.runOn op.run = (.error e, u.bump)) :
    u.Behaves op ∧ (u.after op).Sound := by
  have outcome : u.outcome op = .error e := congrArg Prod.fst failed
  have same : (u.after op).bump = u.bump := congrArg Prod.snd failed
  have unchanged (A : Set Nat) : LinearMemory.AgreesOn A u.bump.memory (u.after op).bump.memory :=
    same ▸ Set.eqOn_refl _ _
  refine h.behaves (same ▸ h.bump) (Nat.le_of_eq (same ▸ rfl)) (fun a ha => ?_) (unchanged _)
    fun _ _ => unchanged _
  obtain ⟨address, given, -⟩ := mem_handed.1 ha
  cases outcome.symm.trans given

/-- What does not ask the allocator is a write, or refused for its length. -/
theorem behaves_of_demand_eq_none (h : u.Sound) (demanded : op.demand = none) :
    u.Behaves op ∧ (u.after op).Sound := by
  cases op with
  | alloc => cases demanded
  | writeBuffer bs =>
    have long : ¬ bs.length < UInt32.size := by
      intro short
      rw [Operation.demand, if_pos short] at demanded
      cases demanded
    refine h.behaves_of_error (e := .bufferTooLarge) ?_
    rw [Operation.run, Heap.writeBuffer, if_neg long]
    rfl
  | write address bs =>
    by_cases within : address.toNat + bs.length ≤ u.bump.memory.size
    · have written : u.bump.runOn (Operation.write address bs).run =
          (.ok none, { u.bump with memory := u.bump.memory.overwrite address.toNat bs }) := by
        rw [Operation.run, runOn_bind_of_ok (runOn_write within)]
        rfl
      have outcome : u.outcome (.write address bs) = .ok none := congrArg Prod.fst written
      have after : (u.after (.write address bs)).bump = _ := congrArg Prod.snd written
      refine h.behaves (after ▸ h.bump.write _ _) (Nat.le_of_eq (after ▸ rfl)) (fun a ha => ?_) ?_
        fun e failed => ?_
      · obtain ⟨address, given, -⟩ := mem_handed.1 ha
        cases outcome.symm.trans given
      · rw [after]
        exact LinearMemory.agreesOn_overwrite Set.disjoint_sdiff_left
      · cases outcome.symm.trans failed
    · obtain ⟨e, failed⟩ := exists_runOn_write_eq within
      exact h.behaves_of_error (runOn_bind_of_error failed)

/-- An operation that does not overrun does as it should. -/
theorem step (h : u.Sound) (fits : ¬ u.Overruns op) : u.Behaves op ∧ (u.after op).Sound := by
  rcases demanded : op.demand with _ | size
  · exact h.behaves_of_demand_eq_none demanded
  have room : ¬ u.bump.Overshoots size := fun past => fits ⟨size, demanded, past⟩
  rcases h.bump.alloc_cases room with ⟨e, failed⟩ | ⟨b, allocated, sound, next, same⟩
  · refine h.behaves_of_error (e := e) ?_
    rw [runOn_run demanded, runOn_bind_of_error (runOn_alloc_of_error failed)]
  -- What is filled lies behind all that was there, also if filling it fails midway.
  have run := runOn_run_of_alloc demanded allocated
  have behind := h.bump.toNat_next_add_four
  have filled : FilledFrom u.bump.next.toNat b (u.after op).bump := by
    rw [after, run]
    exact .fill op (Nat.le_refl _) (by omega)
  have ends := sound.size
  have enough : size.toNat ≤ taken size.toNat := (Layout.le_roundUp (by decide)).1
  have kept := same.trans filled.kept
  refine h.behaves (filled.isSound sound) ?_ (fun a ha => ?_) (kept.mono Set.sdiff_subset)
    fun _ _ => kept
  · rw [filled.next]
    omega
  · obtain ⟨address, given, rfl⟩ := mem_handed.1 ha
    rw [outcome, run] at given
    obtain ⟨rfl, inside⟩ := inside_of_fill demanded (by omega) behind (Prod.ext given rfl)
    refine ⟨rfl, ?_⟩
    rw [filled.next, ← sound.size]
    exact inside

end Sound

/-- An operation that overruns empties the memory, whatever it would write then. -/
theorem Overruns.empties (h : u.Overruns op) :
    (u.after op).bump.memory.size = 0 ∧ (u.after op).bump.next = 0 := by
  obtain ⟨size, demanded, past⟩ := h
  have filled : FilledFrom 0 ⟨u.bump.memory.resize 0, 0⟩ (u.after op).bump := by
    rw [after, runOn_run_of_alloc demanded past.alloc]
    exact .fill op (Nat.zero_le _) (Nat.zero_le _)
  exact ⟨filled.size.trans (LinearMemory.size_resize 0), filled.next⟩

theorem Sound.behaves_iff (h : u.Sound) : u.Behaves op ↔ ¬ u.Overruns op := by
  refine ⟨fun good past => ?_, fun fits => (h.step fits).1⟩
  have shrunk := good.grows
  have start := h.bump.start
  rw [past.empties.1, h.bump.size] at shrunk
  omega

/-- The allocator is given the number of bytes that are to be handed out if this is a word. -/
theorem toNat_demand (demanded : op.demand = some size) (short : op.room < UInt32.size) :
    size.toNat = op.room := by
  cases op with
  | alloc =>
    cases demanded
    rfl
  | write => cases demanded
  | writeBuffer bs =>
    change 4 + bs.length < UInt32.size at short
    have word : bs.length < UInt32.size := by omega
    rw [Operation.demand, if_pos word] at demanded
    cases demanded
    have length : (UInt32.ofNat bs.length).toNat = bs.length := Nat.mod_eq_of_lt word
    rw [Layout.toNat_add_of_lt (by rw [length]; exact short), length]
    rfl

theorem Sound.exact_iff (h : u.Sound) : u.Exact op ↔ ¬ u.Overruns op ∧ ¬ op.IsOverlong := by
  constructor
  · intro precise
    refine ⟨fun ⟨size, demanded, past⟩ => ?_, fun ⟨size, demanded, long⟩ => ?_⟩
    · have next := precise.next size demanded _ _ past.alloc
      change 0 = _ at next
      have beyond := past.2
      rw [← next] at beyond
      exact absurd beyond (by decide)
    · have small := size.toNat_lt
      rw [precise.room size demanded] at small
      exact Nat.lt_irrefl _ (Nat.lt_of_lt_of_le small long)
  · rintro ⟨fits, short⟩
    refine ⟨fun size demanded => ?_, fun size demanded address b allocated => ?_,
      h.bump.toNat_next_add_four⟩
    · exact toNat_demand demanded (Nat.lt_of_not_le fun long => short ⟨size, demanded, long⟩)
    · have room : ¬ u.bump.Overshoots size := fun past => fits ⟨size, demanded, past⟩
      rw [roundUp_add h.bump.aligned]
      rcases h.bump.alloc_cases room with ⟨e, failed⟩ | ⟨b', done, -, next, -⟩
      · cases failed.symm.trans allocated
      · cases done.symm.trans allocated
        exact next

end Usage

/-- What is asked for last ends in the last seven bytes. -/
def lastBytes : List Operation := [.alloc 3, .write 8 [1, 2, 3], .alloc 4294967279]

/-- What is asked for last ends behind them. -/
def pastBytes : List Operation :=
  [.alloc 3, .write 8 [1, 2, 3], .writeBuffer [104, 105], .alloc 4294967279]

/-- After that address zero is handed out, and then the first area once more. -/
example : ((lastBytes ++ [Operation.alloc 3, Operation.alloc 3]).foldl Usage.after .fresh).areas.map
    (fun a => a.address) = [8, 0, 16, 8] := by
  decide

end JigLedger.BumpMemory
