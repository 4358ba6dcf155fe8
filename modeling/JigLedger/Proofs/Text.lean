import JigLedger.Text.Hex
import JigLedger.Text.Numeral
import Mathlib.Data.List.TakeWhile

/-!
# Texts that show bytes and numbers

Hexadecimal digits, numerals and texts between blanks, each said without the function that reads it,
and that the readers accept exactly these: hexadecimal digits of either case spell bytes, two digits
a byte, and a numeral is decimal digits, which may begin with zeros and with a plus.
-/

namespace JigLedger

/-! ### Blanks -/

namespace Blank

variable {before core after cs : List Char}

/-- Nothing but blanks. -/
def AllBlank (cs : List Char) : Prop := ∀ c ∈ cs, isBlank c = true

/-- Trimming takes nothing but blanks off the two ends. -/
theorem exists_trim (cs : List Char) :
    ∃ before after, AllBlank before ∧ AllBlank after ∧ cs = before ++ trim cs ++ after := by
  have taken (l : List Char) : AllBlank (l.takeWhile isBlank) := fun _ => List.mem_takeWhile_imp
  let rest := (cs.dropWhile isBlank).reverse
  refine ⟨cs.takeWhile isBlank, (rest.takeWhile isBlank).reverse, taken cs,
    fun c hc => taken rest c (List.mem_reverse.1 hc), ?_⟩
  have split : rest.takeWhile isBlank ++ rest.dropWhile isBlank = rest :=
    List.takeWhile_append_dropWhile
  have back : trim cs ++ (rest.takeWhile isBlank).reverse = cs.dropWhile isBlank := by
    rw [trim, ← List.reverse_append, split, List.reverse_reverse]
  rw [List.append_assoc, back, List.takeWhile_append_dropWhile]

/-- Text that does not begin with a blank loses nothing at its front. -/
theorem dropWhile_append_of_no_blank (hc : ∀ c ∈ core, isBlank c = false) (some : core ≠ []) :
    (core ++ after).dropWhile isBlank = core ++ after := by
  obtain ⟨c, rest, rfl⟩ := List.exists_cons_of_ne_nil some
  rw [List.cons_append, List.dropWhile_cons_of_neg (by simp [hc c (.head _)])]

/-- What has no blanks is left when the blanks around it are taken off. -/
theorem trim_append (hb : AllBlank before) (ha : AllBlank after)
    (hc : ∀ c ∈ core, isBlank c = false) : trim (before ++ core ++ after) = core := by
  by_cases some : core = []
  · subst some
    have all : (before ++ [] ++ after).dropWhile isBlank = [] := by
      rw [List.append_nil, List.dropWhile_append_of_pos hb]
      exact List.dropWhile_eq_nil_iff.2 ha
    rw [trim, all]
    rfl
  · have again : (core.reverse ++ []).dropWhile isBlank = core.reverse ++ [] :=
      dropWhile_append_of_no_blank (by simpa using hc) (by simpa using some)
    rw [List.append_nil] at again
    rw [trim, List.append_assoc, List.dropWhile_append_of_pos hb,
      dropWhile_append_of_no_blank hc some, List.reverse_append,
      List.dropWhile_append_of_pos fun c mem => ha c (List.mem_reverse.1 mem), again,
      List.reverse_reverse]

end Blank

/-! ### ASCII -/

/-- The bytes of characters that take one byte each. -/
def asciiBytes (cs : List Char) : Bytes := cs.map fun c => UInt8.ofNat c.toNat

/-- Characters of ASCII take one byte each. -/
theorem utf8_ofList_of_ascii {cs : List Char} (ascii : ∀ c ∈ cs, c.toNat < 128) :
    utf8 (String.ofList cs) = asciiBytes cs := by
  rw [utf8, String.toByteArray_ofList, List.utf8Encode, List.data_toByteArray, List.toList_toArray]
  induction cs with
  | nil => rfl
  | cons c cs ih =>
    have small : c.utf8Size = 1 := Char.utf8Size_eq_one_iff.2 (by
      have := ascii c (.head _)
      rw [UInt32.le_iff_toNat_le]
      exact Nat.le_of_lt_succ this)
    rw [List.flatMap_cons, ih fun d hd => ascii d (.tail _ hd),
      String.utf8EncodeChar_eq_singleton small]
    rfl

/-- A text has given bytes of ASCII if it consists of their characters. -/
theorem utf8_eq_asciiBytes_iff {s : String} {cs : List Char} (ascii : ∀ c ∈ cs, c.toNat < 128) :
    utf8 s = asciiBytes cs ↔ s.toList = cs := by
  rw [← utf8_ofList_of_ascii ascii]
  constructor
  · intro same
    rw [Utf8.utf8_injective same, String.toList_ofList]
  · rintro rfl
    rw [String.ofList_toList]

/-! ### Hexadecimal digits -/

namespace Hex

/-- The digits in lower case, by their values. -/
def lowerDigits : List Char :=
  ['0', '1', '2', '3', '4', '5', '6', '7', '8', '9', 'a', 'b', 'c', 'd', 'e', 'f']

/-- The digits in upper case, by their values. -/
def upperDigits : List Char :=
  ['0', '1', '2', '3', '4', '5', '6', '7', '8', '9', 'A', 'B', 'C', 'D', 'E', 'F']

/-- A character is the digit of a value, in either case. -/
def IsDigit (c : Char) (n : Nat) : Prop := lowerDigits[n]? = some c ∨ upperDigits[n]? = some c

instance (c : Char) (n : Nat) : Decidable (IsDigit c n) := inferInstanceAs (Decidable (_ ∨ _))

/-- Digits spell bytes, two digits a byte. -/
inductive Spells : List Char → Bytes → Prop where
  | nil : Spells [] []
  | byte {a b : Char} {hi lo : Nat} {ds : List Char} {bs : Bytes} (high : IsDigit a hi)
      (low : IsDigit b lo) (rest : Spells ds bs) :
      Spells (a :: b :: ds) (UInt8.ofNat (16 * hi + lo) :: bs)

/-- The digit that is written for a value is one of this value. -/
theorem isDigit_digit : ∀ n < 16, IsDigit (digit n) n := by decide

/-- Every digit is one of ASCII, and it is read as its value. -/
theorem IsDigit.value {c : Char} {n : Nat} (h : IsDigit c n) :
    n < 16 ∧ c.toNat < 128 ∧ Blank.isBlank c = false ∧
      digitValue? (UInt8.ofNat c.toNat) = some n := by
  have all : ∀ digits ∈ [lowerDigits, upperDigits], ∀ m < 16, (digits[m]?.all fun d =>
      d.toNat < 128 && !Blank.isBlank d && digitValue? (UInt8.ofNat d.toNat) == some m) = true := by
    decide
  have one {digits : List Char} (table : digits ∈ [lowerDigits, upperDigits])
      (there : digits[n]? = some c) (bound : n < 16) : n < 16 ∧ c.toNat < 128 ∧
        Blank.isBlank c = false ∧ digitValue? (UInt8.ofNat c.toNat) = some n := by
    have checked := all digits table n bound
    simp only [there, Option.all_some, Bool.and_eq_true, Bool.not_eq_true', decide_eq_true_eq,
      beq_iff_eq] at checked
    exact ⟨bound, checked.1.1, checked.1.2, checked.2⟩
  rcases h with lower | upper
  · exact one (.head _) lower (List.getElem?_eq_some_iff.1 lower).1
  · exact one (.tail _ (.head _)) upper (List.getElem?_eq_some_iff.1 upper).1

/-- Every byte that is read as a digit is the code of one. -/
theorem isDigit_of_digitValue? {b : UInt8} {n : Nat} (h : digitValue? b = some n) :
    IsDigit (Char.ofNat b.toNat) n ∧ UInt8.ofNat (Char.ofNat b.toNat).toNat = b := by
  have all : ∀ m : Fin 256, ∀ n ∈ digitValue? (UInt8.ofNat m),
      IsDigit (Char.ofNat m) n ∧ UInt8.ofNat (Char.ofNat m).toNat = UInt8.ofNat m := by
    decide +kernel
  have here := all ⟨b.toNat, b.toNat_lt⟩ n
  rw [UInt8.ofNat_toNat] at here
  exact here h

variable {ds : List Char} {bs : Bytes}

/-- Each byte takes two digits. -/
theorem Spells.length (h : Spells ds bs) : ds.length = 2 * bs.length := by
  induction h with
  | nil => rfl
  | byte _ _ _ ih => simp only [List.length_cons, ih]; omega

theorem Spells.isDigit (h : Spells ds bs) : ∀ c ∈ ds, ∃ n, IsDigit c n := by
  induction h with
  | nil => exact nofun
  | byte high low _ ih =>
    exact List.forall_mem_cons.2 ⟨⟨_, high⟩, List.forall_mem_cons.2 ⟨⟨_, low⟩, ih⟩⟩

theorem Spells.ascii (h : Spells ds bs) : ∀ c ∈ ds, c.toNat < 128 := fun c mem =>
  let ⟨_, digit⟩ := h.isDigit c mem
  digit.value.2.1

/-- An even number of digits spells bytes. -/
theorem exists_spells {k : Nat} (even : ds.length = 2 * k) (digits : ∀ c ∈ ds, ∃ n, IsDigit c n) :
    ∃ bs, bs.length = k ∧ Spells ds bs := by
  induction k generalizing ds with
  | zero =>
    obtain rfl := List.eq_nil_of_length_eq_zero even
    exact ⟨[], rfl, .nil⟩
  | succ k ih =>
    obtain ⟨a, rest, rfl⟩ := List.exists_cons_of_length_eq_add_one (n := 2 * k + 1) even
    obtain ⟨b, rest, rfl⟩ := List.exists_cons_of_length_eq_add_one (n := 2 * k)
      (Nat.succ.inj even)
    obtain ⟨⟨hi, high⟩, ⟨lo, low⟩, digits⟩ := by simpa only [List.forall_mem_cons] using digits
    obtain ⟨bs, length, spells⟩ := ih (Nat.succ.inj (Nat.succ.inj even)) digits
    exact ⟨_ :: bs, congrArg Nat.succ length, .byte high low spells⟩

/-- The digits that are written for bytes spell them. -/
theorem spells_digits (bs : Bytes) : Spells (digits bs) bs := by
  induction bs with
  | nil => exact .nil
  | cons b bs ih =>
    have small := b.toNat_lt
    have whole : UInt8.ofNat (16 * (b.toNat / 16) + b.toNat % 16) = b := by
      rw [Nat.div_add_mod, UInt8.ofNat_toNat]
    have first := Spells.byte (isDigit_digit (b.toNat / 16) (by omega))
      (isDigit_digit (b.toNat % 16) (by omega)) ih
    rwa [whole] at first

/-- Two digits are read as one byte. -/
theorem decodeFrom_cons_cons_eq_ok {position : Nat} {a b : UInt8} {text : Bytes} :
    decodeFrom position (a :: b :: text) = .ok bs ↔ ∃ hi lo rest, digitValue? a = some hi ∧
      digitValue? b = some lo ∧ decodeFrom (position + 2) text = .ok rest ∧
        bs = UInt8.ofNat (16 * hi + lo) :: rest := by
  rw [decodeFrom]
  rcases digitValue? a with _ | hi
  · simp
  rcases digitValue? b with _ | lo
  · simp
  rcases decodeFrom (position + 2) text with _ | rest
  · simp [bind, Except.bind]
  · simp [bind, Except.bind, pure, Except.pure, eq_comm]

/-- Bytes that are read are the codes of digits. -/
theorem exists_spells_of_decodeFrom : ∀ {text : Bytes} {position : Nat} {bs : Bytes},
    decodeFrom position text = .ok bs → ∃ ds, Spells ds bs ∧ text = asciiBytes ds
  | [], _, _, read => by
    cases read
    exact ⟨[], .nil, rfl⟩
  | [_], _, _, read => by cases read
  | a :: b :: text, _, _, read => by
    obtain ⟨hi, lo, rest, high, low, more, rfl⟩ := decodeFrom_cons_cons_eq_ok.1 read
    obtain ⟨high, first⟩ := isDigit_of_digitValue? high
    obtain ⟨low, second⟩ := isDigit_of_digitValue? low
    obtain ⟨ds, spells, rfl⟩ := exists_spells_of_decodeFrom more
    refine ⟨_, .byte high low spells, ?_⟩
    simp only [asciiBytes, List.map_cons, first, second]

/-- The codes of digits are read. -/
theorem Spells.decodeFrom (h : Spells ds bs) (position : Nat) :
    Hex.decodeFrom position (asciiBytes ds) = .ok bs := by
  induction h generalizing position with
  | nil => rfl
  | byte high low _ ih =>
    exact decodeFrom_cons_cons_eq_ok.2 ⟨_, _, _, high.value.2.2.2, low.value.2.2.2, ih _, rfl⟩

/-- A text is read as the bytes that its characters spell. -/
theorem decode_utf8_eq_ok_iff {s : String} : decode (utf8 s) = .ok bs ↔ Spells s.toList bs := by
  have spelled : decodeFrom 0 (utf8 s) = .ok bs ↔ Spells s.toList bs := by
    constructor
    · intro read
      obtain ⟨ds, spells, same⟩ := exists_spells_of_decodeFrom read
      exact (utf8_eq_asciiBytes_iff spells.ascii).1 same ▸ spells
    · intro spells
      rw [(utf8_eq_asciiBytes_iff spells.ascii).2 rfl]
      exact spells.decodeFrom 0
  rw [decode]
  split
  case isFalse => exact spelled
  case isTrue odd =>
    refine ⟨nofun, fun spells => ?_⟩
    rw [(utf8_eq_asciiBytes_iff spells.ascii).2 rfl, asciiBytes, List.length_map,
      spells.length] at odd
    omega

/-- A text is digits, with or without `0x` in front of them, between blanks. -/
def Wraps (cs ds : List Char) : Prop :=
  ∃ before marker after, Blank.AllBlank before ∧ Blank.AllBlank after ∧
    (marker = [] ∨ marker = ['0', 'x'] ∨ marker = ['0', 'X']) ∧
      cs = before ++ (marker ++ ds) ++ after

/-- What is left of a text of digits is the digits. -/
theorem toList_strip_eq_iff {s : String} (digits : ∀ c ∈ ds, ∃ n, IsDigit c n) :
    (strip s).toList = ds ↔ Wraps s.toList ds := by
  constructor
  case mp =>
    rintro rfl
    obtain ⟨before, after, blank, blank', parts⟩ := Blank.exists_trim s.toList
    rw [strip]
    split
    case h_1 rest trimmed =>
      rw [trimmed] at parts
      exact ⟨before, ['0', 'x'], after, blank, blank', .inr (.inl rfl), by simpa using parts⟩
    case h_2 rest trimmed =>
      rw [trimmed] at parts
      exact ⟨before, ['0', 'X'], after, blank, blank', .inr (.inr rfl), by simpa using parts⟩
    case h_3 =>
      exact ⟨before, [], after, blank, blank', .inl rfl, by simpa using parts⟩
  case mpr =>
    rintro ⟨before, marker, after, blank, blank', marked, parts⟩
    have dense : ∀ c ∈ marker ++ ds, Blank.isBlank c = false := by
      refine List.forall_mem_append.2 ⟨fun c mem => ?_, fun c mem => ?_⟩
      · have checked : (marker.all fun c => !Blank.isBlank c) = true := by
          rcases marked with rfl | rfl | rfl <;> rfl
        simpa using List.all_eq_true.1 checked c mem
      · obtain ⟨n, digit⟩ := digits c mem
        exact digit.value.2.2.1
    have trimmed : Blank.trim s.toList = marker ++ ds := by
      rw [parts, Blank.trim_append blank blank' dense]
    have no_marker (c : Char) (other : ∀ n < 16, ¬ IsDigit c n) (a : Char) (rest : List Char) :
        ds ≠ a :: c :: rest := by
      rintro rfl
      obtain ⟨n, digit⟩ := digits c (.tail _ (.head _))
      exact other n digit.value.1 digit
    rw [strip, trimmed]
    rcases marked with rfl | rfl | rfl
    · split
      case h_1 rest same => exact absurd same (no_marker 'x' (by decide) _ _)
      case h_2 rest same => exact absurd same (no_marker 'X' (by decide) _ _)
      case h_3 => exact String.toList_ofList
    · exact String.toList_ofList
    · exact String.toList_ofList

end Hex

/-! ### Numerals -/

namespace Numeral

/-- Decimal digits, which may have a plus in front of them, show the number with these digits. -/
def Shows (cs : List Char) (n : Nat) : Prop :=
  ∃ sign digits, (sign = [] ∨ sign = ['+']) ∧ digits ≠ [] ∧ (∀ c ∈ digits, c.isDigit = true) ∧
    cs = sign ++ digits ∧ n = Nat.ofDigitChars 10 digits 0

theorem digitValue?_eq_some_iff {c : Char} {n : Nat} :
    digitValue? c = some n ↔ c.isDigit = true ∧ n = c.toNat - '0'.toNat := by
  have same : c.isDigit = true ↔ '0' ≤ c ∧ c ≤ '9' := by
    rw [Char.isDigit, Bool.and_eq_true, decide_eq_true_eq, decide_eq_true_eq]
    rfl
  rw [digitValue?, same]
  split
  case isTrue digit => simp [digit, eq_comm]
  case isFalse other => simp [other]

/-- More digits do not make a number smaller. -/
theorem le_ofDigitChars (cs : List Char) (n : Nat) : n ≤ Nat.ofDigitChars 10 cs n := by
  induction cs generalizing n with
  | nil => exact Nat.le_refl n
  | cons c cs ih =>
    have first : n ≤ 10 * n + (c.toNat - '0'.toNat) := by omega
    exact first.trans (ih _)

theorem parseFrom_eq_ok_iff {bound m n : Nat} {cs : List Char} (small : m < bound) :
    parseFrom bound m cs = .ok n ↔
      (∀ c ∈ cs, c.isDigit = true) ∧ n = Nat.ofDigitChars 10 cs m ∧ n < bound := by
  induction cs generalizing m with
  | nil =>
    constructor
    · rintro ⟨⟩
      exact ⟨nofun, rfl, small⟩
    · rintro ⟨-, rfl, -⟩
      rfl
  | cons c cs ih =>
    rw [parseFrom]
    rcases hd : digitValue? c with _ | d <;> dsimp only
    case none =>
      refine ⟨nofun, fun ⟨digits, _⟩ => ?_⟩
      rw [digitValue?_eq_some_iff.2 ⟨digits c (.head _), rfl⟩] at hd
      cases hd
    case some =>
      obtain ⟨digit, rfl⟩ := digitValue?_eq_some_iff.1 hd
      rw [List.forall_mem_cons, and_iff_right digit]
      split
      case isTrue below => exact ih below
      case isFalse beyond =>
        refine ⟨nofun, fun ⟨_, value, below⟩ => ?_⟩
        have least := le_ofDigitChars cs (10 * m + (c.toNat - '0'.toNat))
        exact absurd (Nat.lt_of_le_of_lt least (value ▸ below)) beyond

/-- A text is read as a number below a bound if it shows this number. -/
theorem parse_eq_ok_iff {bound n : Nat} {cs : List Char} (some : 0 < bound) :
    parse bound cs = .ok n ↔ Shows cs n ∧ n < bound := by
  constructor
  case mp =>
    intro read
    rw [parse.eq_def] at read
    split at read
    case h_1 => cases read
    case h_2 => cases read
    case h_3 digits more =>
      obtain ⟨digital, value, below⟩ := (parseFrom_eq_ok_iff some).1 read
      exact ⟨⟨['+'], digits, .inr rfl, more, digital, rfl, value⟩, below⟩
    case h_4 nonempty _ _ =>
      obtain ⟨digital, value, below⟩ := (parseFrom_eq_ok_iff some).1 read
      exact ⟨⟨[], cs, .inl rfl, nonempty, digital, rfl, value⟩, below⟩
  case mpr =>
    rintro ⟨⟨sign, digits, signed, given, digital, rfl, value⟩, below⟩
    have read := (parseFrom_eq_ok_iff some).2 ⟨digital, value, below⟩
    have unsigned (rest : List Char) : digits ≠ '+' :: rest := by
      rintro rfl
      exact absurd (digital '+' (.head _)) (by decide)
    rw [parse.eq_def]
    rcases signed with rfl | rfl <;> simp only [List.nil_append, List.singleton_append]
    · split
      case h_1 => exact absurd rfl given
      case h_2 => exact absurd rfl (unsigned [])
      case h_3 rest _ => exact absurd rfl (unsigned rest)
      case h_4 => exact read
    · exact read

/-- What is written for a number shows it. -/
theorem shows_toDigits (n : Nat) : Shows (Nat.toDigits 10 n) n :=
  ⟨[], _, .inl rfl, Nat.toDigits_ne_nil,
    fun _ => Nat.isDigit_of_mem_toDigits (by decide) (by decide), rfl, (Nat.ofDigitChars_toDigits (by decide) (by decide)).symm⟩

end Numeral

end JigLedger
