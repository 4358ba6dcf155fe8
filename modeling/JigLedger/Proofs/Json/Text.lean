import JigLedger.Json.Parser
import JigLedger.Json.Printer
import JigLedger.Proofs.Text
import Mathlib.Algebra.Group.Nat.Defs
import Mathlib.Data.List.TakeDrop

/-!
# JSON texts are read back

What is written for a JSON value is cut into the tokens of this value, and these are read as the
value. Its strings have to be texts, and its numbers have to be proper: the digits after a point
show no more than their places allow.
-/

namespace JigLedger.Json

/-! ### Values -/

/-- Every string is a text, and every number is one of those allowed. -/
inductive Consists (allowed : Number → Prop) : Json → Prop where
  | null : Consists allowed .null
  | bool (b : Bool) : Consists allowed (.bool b)
  | number {n : Number} (h : allowed n) : Consists allowed (.number n)
  | text (s : String) : Consists allowed (.text s)
  | array {items : List Json} (each : ∀ j ∈ items, Consists allowed j) :
      Consists allowed (.array items)
  | object {members : List (String × Json)} (each : ∀ m ∈ members, Consists allowed m.2) :
      Consists allowed (.ofMembers members)

/-- A number that can be written: there are digits after its point, and they fit into their
places. -/
def Number.Proper (n : Number) : Prop := ∀ f ∈ n.fraction, 0 < f.1 ∧ f.2 < 10 ^ f.1

/-! ### Numbers -/

/-- The text does not go on as a number would. -/
def Stops (cs : List Char) : Prop :=
  ∀ c ∈ cs.head?, c.isDigit = false ∧ c ≠ '.' ∧ c ≠ 'e' ∧ c ≠ 'E'

/-- The text does not begin with a digit. -/
def NoDigit (cs : List Char) : Prop := ∀ c ∈ cs.head?, c.isDigit = false

variable {cs rest : List Char} {n : Nat}

theorem spanDigits_append (digits : ∀ c ∈ cs, c.isDigit = true) (stop : NoDigit rest) :
    spanDigits (cs ++ rest) = (cs, rest) := by
  have none_left : rest.takeWhile Char.isDigit = [] ∧ rest.dropWhile Char.isDigit = rest := by
    cases rest with
    | nil => exact ⟨rfl, rfl⟩
    | cons c rest => simp [stop c rfl]
  rw [spanDigits, List.span_eq_takeWhile_dropWhile, List.takeWhile_append_of_pos digits,
    List.dropWhile_append_of_pos digits, none_left.1, none_left.2, List.append_nil]

/-- A natural number begins with a digit, and with a zero only if it is zero. -/
theorem exists_toDigits (n : Nat) :
    ∃ d ds, Nat.toDigits 10 n = d :: ds ∧ d.isDigit = true ∧ (n ≠ 0 → d ≠ '0') := by
  induction n using Nat.strongRecOn with
  | ind n ih =>
    by_cases small : n < 10
    · have all : ∀ m < 10, (Nat.digitChar m).isDigit = true ∧ (m ≠ 0 → Nat.digitChar m ≠ '0') := by
        decide
      exact ⟨_, [], Nat.toDigits_of_lt_base small, all n small⟩
    · obtain ⟨d, ds, shape, digit, first⟩ := ih (n / 10) (by omega)
      refine ⟨d, ds ++ [(n % 10).digitChar], ?_, digit, fun _ => first (by omega)⟩
      rw [Nat.toDigits_of_base_le (by decide) (by omega), shape]
      rfl

theorem spanDigits_toDigits (stop : NoDigit rest) :
    spanDigits (Nat.toDigits 10 n ++ rest) = (Nat.toDigits 10 n, rest) :=
  spanDigits_append (fun _ => Nat.isDigit_of_mem_toDigits (by decide) (by decide)) stop

theorem digitsValue_toDigits (n : Nat) : digitsValue (Nat.toDigits 10 n) = n :=
  Nat.ofDigitChars_toDigits (by decide) (by decide)

theorem lexWhole_toDigits (stop : NoDigit rest) :
    lexWhole (Nat.toDigits 10 n ++ rest) = some (n, rest) := by
  by_cases zero : n = 0
  · subst zero
    rfl
  · obtain ⟨d, ds, shape, -, first⟩ := exists_toDigits n
    have spanned := spanDigits_toDigits (n := n) stop
    have value := digitsValue_toDigits n
    rw [shape] at spanned value ⊢
    rw [lexWhole.eq_def]
    split
    case h_1 same => exact absurd (List.cons.inj same).1 (first zero)
    case h_2 => rw [spanned, ← value]

/-- The digits of a number that fits into some places fill these places and show the number. -/
theorem paddedDigits_shows {width : Nat} (wide : 0 < width) (fits : n < 10 ^ width) :
    (∀ c ∈ paddedDigits width n, c.isDigit = true) ∧ (paddedDigits width n).length = width ∧
      digitsValue (paddedDigits width n) = n := by
  have short := (Nat.length_toDigits_le_iff (by decide) wide).2 fits
  refine ⟨?_, ?_, ?_⟩
  · refine List.forall_mem_append.2 ⟨fun c mem => ?_, fun c => ?_⟩
    · rw [List.eq_of_mem_replicate mem]
      rfl
    · exact Nat.isDigit_of_mem_toDigits (by decide) (by decide)
  · rw [paddedDigits, List.length_append, List.length_replicate]
    omega
  · have zeros (k : Nat) : Nat.ofDigitChars 10 (List.replicate k '0') 0 = 0 := by
      induction k with
      | zero => rfl
      | succ k ih => exact ih
    change Nat.ofDigitChars 10 (_ ++ _) 0 = n
    rw [Nat.ofDigitChars_append, zeros]
    exact digitsValue_toDigits n

/-- The fraction of a number as it is written. -/
def fractionChars : Option (Nat × Nat) → List Char
  | none => []
  | some (places, tail) => '.' :: paddedDigits places tail

/-- The exponent of a number as it is written. -/
def exponentChars : Option Int → List Char
  | none => []
  | some e => 'e' :: ((if e < 0 then ['-'] else []) ++ Nat.toDigits 10 e.natAbs)

/-- A number is written as its sign and its three parts. -/
theorem Number.chars_eq (n : Number) : n.chars = (if n.negative then ['-'] else []) ++
    (Nat.toDigits 10 n.whole ++ (fractionChars n.fraction ++ exponentChars n.exponent)) := by
  obtain ⟨negative, whole, _ | _, _ | _⟩ := n <;>
    simp [Number.chars, fractionChars, exponentChars]

theorem lexFraction_fractionChars {fraction : Option (Nat × Nat)}
    (proper : ∀ f ∈ fraction, 0 < f.1 ∧ f.2 < 10 ^ f.1)
    (stop : ∀ c ∈ rest.head?, c.isDigit = false ∧ c ≠ '.') :
    lexFraction (fractionChars fraction ++ rest) = some (fraction, rest) := by
  rcases fraction with _ | ⟨places, tail⟩
  · rw [fractionChars, List.nil_append, lexFraction.eq_def]
    split
    case h_1 => exact absurd rfl (stop '.' rfl).2
    case h_2 => rfl
  · obtain ⟨wide, fits⟩ := proper _ rfl
    obtain ⟨digits, length, value⟩ := paddedDigits_shows wide fits
    rw [fractionChars, List.cons_append, lexFraction,
      spanDigits_append digits fun c mem => (stop c mem).1]
    split
    case h_1 none =>
      rw [(Prod.mk.inj none).1] at length
      exact absurd length wide.ne
    case h_2 shown =>
      obtain ⟨rfl, rfl⟩ := Prod.mk.inj shown
      rw [length, value]

theorem lexSign_toDigits (e : Int) :
    lexSign ((if e < 0 then ['-'] else []) ++ (Nat.toDigits 10 e.natAbs ++ rest)) =
      (decide (e < 0), Nat.toDigits 10 e.natAbs ++ rest) := by
  split
  case isTrue below => simp [lexSign, below]
  case isFalse above =>
    obtain ⟨d, ds, shape, digit, -⟩ := exists_toDigits e.natAbs
    rw [List.nil_append, shape, List.cons_append, lexSign.eq_def]
    split
    case h_1 same => exact absurd ((List.cons.inj same).1 ▸ digit) (by decide)
    case h_2 same => exact absurd ((List.cons.inj same).1 ▸ digit) (by decide)
    case h_3 => simp [above]

theorem lexExponent_exponentChars {exponent : Option Int} (stop : Stops rest) :
    lexExponent (exponentChars exponent ++ rest) = some (exponent, rest) := by
  rcases exponent with _ | e
  · cases rest with
    | nil => rfl
    | cons c rest => simp [exponentChars, lexExponent, stop c rfl]
  · have marked : (decide ('e' = 'e') || decide ('e' = 'E')) = true := rfl
    rw [exponentChars, List.cons_append, List.append_assoc, lexExponent, if_pos marked,
      lexSign_toDigits]
    dsimp only
    rw [spanDigits_toDigits fun c mem => (stop c mem).1]
    split
    case h_1 none => exact absurd (Prod.mk.inj none).1 Nat.toDigits_ne_nil
    case h_2 shown =>
      obtain ⟨rfl, rfl⟩ := Prod.mk.inj shown
      have whole : (if e < 0 then -(e.natAbs : Int) else e.natAbs) = e := by omega
      simp only [digitsValue_toDigits, decide_eq_true_eq, whole]

/-- What is written for a number without its sign is read as it. -/
theorem lexNumber_chars {n : Number} (proper : n.Proper) (stop : Stops rest) :
    lexNumber n.negative (Nat.toDigits 10 n.whole ++
      (fractionChars n.fraction ++ (exponentChars n.exponent ++ rest))) = some (n, rest) := by
  have after_fraction : ∀ c ∈ (exponentChars n.exponent ++ rest).head?,
      c.isDigit = false ∧ c ≠ '.' := by
    rcases n.exponent with _ | e
    · exact fun c mem => ⟨(stop c mem).1, (stop c mem).2.1⟩
    · rintro c ⟨⟩
      decide
  have after_whole : NoDigit (fractionChars n.fraction ++ (exponentChars n.exponent ++ rest)) := by
    rcases n.fraction with _ | f
    · exact fun c mem => (after_fraction c mem).1
    · rintro c ⟨⟩
      decide
  simp only [lexNumber, lexWhole_toDigits after_whole,
    lexFraction_fractionChars proper after_fraction, lexExponent_exponentChars stop,
    Option.bind_eq_bind, Option.bind_some, Option.pure_def]

/-! ### Strings -/

theorem hexValue?_digit {n : Nat} (small : n < 16) : hexValue? (Hex.digit n) = some n := by
  obtain ⟨-, ascii, -, value⟩ := (Hex.isDigit_digit n small).value
  rw [hexValue?, if_pos ascii, value]

/-- A character is written as a simple escape, as the number of a control character, or plainly. -/
theorem escape_cases (c : Char) :
    (∃ e, e ≠ 'u' ∧ simpleEscape? e = some c ∧ escape c = ['\\', e]) ∨
    (c.toNat < 32 ∧ escape c =
      ['\\', 'u', '0', '0', Hex.digit (c.toNat / 16), Hex.digit (c.toNat % 16)]) ∨
    (c ≠ '"' ∧ c ≠ '\\' ∧ 32 ≤ c.toNat ∧ escape c = [c]) := by
  by_cases named : c ∈ ['"', '\\', '\x08', '\t', '\n', '\x0c', '\r']
  · have found : ∃ e, e ≠ 'u' ∧ simpleEscape? e = some c ∧ escape c = ['\\', e] := by
      simp only [List.mem_cons, List.not_mem_nil, or_false] at named
      rcases named with rfl | rfl | rfl | rfl | rfl | rfl | rfl
      · exact ⟨'"', by decide, rfl, rfl⟩
      · exact ⟨'\\', by decide, rfl, rfl⟩
      · exact ⟨'b', by decide, rfl, rfl⟩
      · exact ⟨'t', by decide, rfl, rfl⟩
      · exact ⟨'n', by decide, rfl, rfl⟩
      · exact ⟨'f', by decide, rfl, rfl⟩
      · exact ⟨'r', by decide, rfl, rfl⟩
    exact .inl found
  · simp only [List.mem_cons, List.not_mem_nil, or_false, not_or] at named
    obtain ⟨quote, backslash, backspace, tab, line, page, carriage⟩ := named
    rw [escape, if_neg quote, if_neg backslash, if_neg backspace, if_neg tab, if_neg line,
      if_neg page, if_neg carriage]
    split
    case isTrue control => exact .inr (.inl ⟨control, rfl⟩)
    case isFalse plain => exact .inr (.inr ⟨quote, backslash, Nat.not_lt.1 plain, rfl⟩)

/-- What is written for a character is cut as one piece, and this piece stands for it. -/
theorem exists_piece (c : Char) : ∃ piece,
    (∀ rest, lexString (escape c ++ rest) =
      (lexString rest).map fun read => (piece :: read.1, read.2)) ∧
    ∀ pieces, joinPieces (piece :: pieces) = (joinPieces pieces).map (c :: ·) := by
  rcases escape_cases c with ⟨e, other, simple, written⟩ | ⟨control, written⟩ |
    ⟨quote, backslash, plain, written⟩
  case inl =>
    refine ⟨.char c, fun rest => ?_, fun pieces => ?_⟩
    · simp [written, lexString, other, simple, Option.map_eq_bind, Function.comp_def]
    · simp [joinPieces, Option.map_eq_bind, Function.comp_def]
  case inr.inl =>
    have unit : unit? '0' '0' (Hex.digit (c.toNat / 16)) (Hex.digit (c.toNat % 16)) =
        some c.toNat := by
      have zero : hexValue? '0' = some 0 := rfl
      simp only [unit?, zero, hexValue?_digit (n := c.toNat / 16) (by omega),
        hexValue?_digit (n := c.toNat % 16) (by omega), Option.bind_eq_bind, Option.bind_some,
        Option.pure_def, Option.some.injEq]
      omega
    refine ⟨.unit c.toNat, fun rest => ?_, fun pieces => ?_⟩
    · simp [written, lexString, unit, Option.map_eq_bind, Function.comp_def]
    · rw [joinPieces.eq_def]
      dsimp only
      rw [if_neg (by omega), if_neg (by omega), Char.ofNat_toNat]
      simp [Option.map_eq_bind, Function.comp_def]
  case inr.inr =>
    refine ⟨.char c, fun rest => ?_, fun pieces => ?_⟩
    · simp [written, lexString, backslash, Nat.not_lt.2 plain, Option.map_eq_bind,
        Function.comp_def]
    · simp [joinPieces, Option.map_eq_bind, Function.comp_def]

/-- What is written for a text is cut as pieces that stand for it. -/
theorem lexString_flatMap_escape (cs rest : List Char) : ∃ pieces,
    lexString (cs.flatMap escape ++ '"' :: rest) = some (pieces, rest) ∧
      joinPieces pieces = some cs := by
  induction cs with
  | nil => exact ⟨[], rfl, rfl⟩
  | cons c cs ih =>
    obtain ⟨piece, cut, stands⟩ := exists_piece c
    obtain ⟨pieces, more, shown⟩ := ih
    refine ⟨piece :: pieces, ?_, ?_⟩
    · rw [List.flatMap_cons, List.append_assoc, cut, more]
      rfl
    · rw [stands, shown]
      rfl

/-! ### Tokens -/

/-- A text that is cut into tokens. -/
def Cut (cs : List Char) (tokens : List Token) : Prop :=
  ∃ fuel ≤ cs.length, lex fuel cs = some tokens

/-- More fuel than needed changes nothing. -/
theorem lex_mono {fuel more : Nat} {cs : List Char} {tokens : List Token}
    (h : lex fuel cs = some tokens) (le : fuel ≤ more) : lex more cs = some tokens := by
  induction fuel generalizing cs tokens more with
  | zero =>
    cases cs with
    | nil => simpa [lex] using h
    | cons c cs => simp [lex] at h
  | succ fuel ih =>
    obtain ⟨more, rfl⟩ : ∃ k, more = k + 1 := ⟨more - 1, by omega⟩
    cases cs with
    | nil => simpa [lex] using h
    | cons c cs =>
      rw [lex] at h ⊢
      split at h
      case isTrue blank => rw [if_pos blank, ih h (by omega)]
      case isFalse ink =>
        obtain ⟨⟨t, rest⟩, token, h⟩ := Option.bind_eq_some_iff.1 h
        obtain ⟨ts, tail, h⟩ := Option.bind_eq_some_iff.1 h
        rw [if_neg ink, token]
        dsimp only [Option.bind_eq_bind, Option.bind_some]
        rw [ih tail (by omega)]
        exact h

theorem Cut.lex {tokens : List Token} (h : Cut cs tokens) : lex cs.length cs = some tokens :=
  let ⟨_, le, cut⟩ := h
  lex_mono cut le

variable {ts more : List Token}

theorem Cut.nil : Cut [] [] := ⟨0, Nat.le_refl 0, rfl⟩

/-- A token in front of a text that is cut. -/
theorem Cut.cons {c : Char} {t : Token} (h : Cut rest ts)
    (token : lexToken (c :: cs) = some (t, rest)) (ink : isBlank c = false)
    (shorter : rest.length ≤ cs.length) : Cut (c :: cs) (t :: ts) := by
  obtain ⟨fuel, le, cut⟩ := h
  refine ⟨fuel + 1, by rw [List.length_cons]; omega, ?_⟩
  simp [Json.lex, ink, token, cut]

/-- A text between quotes is cut as one token. -/
theorem Cut.quoted (h : Cut rest ts) (s : String) :
    Cut (quoted s ++ rest) (.string (some s) :: ts) := by
  obtain ⟨pieces, cut, shown⟩ := lexString_flatMap_escape s.toList rest
  have token : lexToken ('"' :: (s.toList.flatMap escape ++ ['"'] ++ rest)) =
      some (.string (some s), rest) := by
    simp [lexToken, cut, shown]
  exact h.cons token (by decide) (by simp; omega)

theorem isBlank_of_isDigit {c : Char} (digit : c.isDigit = true) : isBlank c = false := by
  have other {d : Char} (no : d.isDigit = false) : c ≠ d := by
    rintro rfl
    rw [no] at digit
    cases digit
  simp [isBlank, other (d := ' ') (by decide), other (d := '\t') (by decide),
    other (d := '\n') (by decide), other (d := '\r') (by decide)]

/-- A digit begins a number. -/
theorem lexToken_of_isDigit {c : Char} (digit : c.isDigit = true) :
    lexToken (c :: cs) = (lexNumber false (c :: cs)).map fun read => (.number read.1, read.2) := by
  have other {d : Char} {ds : List Char} (same : c :: cs = d :: ds) (no : d.isDigit = false) :
      False := by
    rw [(List.cons.inj same).1, no] at digit
    cases digit
  rw [lexToken.eq_def]
  split
  case h_1 same => cases same
  case h_13 => simp [Option.map_eq_bind, Function.comp_def]
  all_goals
    rename_i same
    exact (other same (by decide)).elim

/-- A number is cut as one token where it stops. -/
theorem Cut.number {n : Number} (h : Cut rest ts) (stop : Stops rest) (proper : n.Proper) :
    Cut (n.chars ++ rest) (.number n :: ts) := by
  have read := lexNumber_chars proper stop
  obtain ⟨d, ds, shape, digit, -⟩ := exists_toDigits n.whole
  rw [Number.chars_eq]
  rw [shape] at read ⊢
  simp only [List.append_assoc, List.cons_append] at read ⊢
  rcases sign : n.negative <;> rw [sign] at read
  case true =>
    refine h.cons ?_ (by decide) (by simp; omega)
    simp [lexToken, read]
  case false =>
    refine h.cons ?_ ?_ (by simp; omega)
    · rw [lexToken_of_isDigit digit]
      simp [read]
    · exact isBlank_of_isDigit digit

mutual

/-- The tokens of a value. -/
def tokens : Json → List Token
  | .null => [.null]
  | .bool b => [.bool b]
  | .number n => [.number n]
  | .string s => [.string s]
  | .array items => .openBracket :: (itemTokens items ++ [.closeBracket])
  | .object members => .openBrace :: (memberTokens members ++ [.closeBrace])

/-- The tokens of the items of an array. -/
def itemTokens : List Json → List Token
  | [] => []
  | [j] => tokens j
  | j :: rest => tokens j ++ .comma :: itemTokens rest

/-- The tokens of the members of an object. -/
def memberTokens : List (Option String × Json) → List Token
  | [] => []
  | [(name, j)] => .string name :: .colon :: tokens j
  | (name, j) :: rest => .string name :: .colon :: (tokens j ++ .comma :: memberTokens rest)

end

/-- A text is cut into given tokens, whatever follows it, if a number could not go on there. -/
def Yields (cs : List Char) (own : List Token) : Prop :=
  ∀ {rest ts}, Stops rest → Cut rest ts → Cut (cs ++ rest) (own ++ ts)

theorem stops_cons {c : Char} (h : c.isDigit = false ∧ c ≠ '.' ∧ c ≠ 'e' ∧ c ≠ 'E') :
    Stops (c :: cs) := by
  rintro c ⟨⟩
  exact h

/-- The items of an array are cut into their tokens if each of them is. -/
theorem yields_items : ∀ {items : List Json}, (∀ j ∈ items, Yields j.chars j.tokens) →
    Yields (itemChars items) (itemTokens items)
  | [], _, _, _, _, more => more
  | [j], each, _, _, stop, more => each j (.head _) stop more
  | j :: k :: items, each, rest, ts, stop, more => by
    have later := yields_items (fun i mem => each i (.tail _ mem)) stop more
    have comma : Cut (',' :: (itemChars (k :: items) ++ rest))
        (.comma :: (itemTokens (k :: items) ++ ts)) := later.cons rfl (by decide) (Nat.le_refl _)
    have first := each j (.head _) (stops_cons (by decide)) comma
    simpa [itemChars, itemTokens] using first

/-- A member is cut into its name and the tokens of its value if the value is. -/
theorem yields_member {m : String × Json} (h : Yields m.2.chars m.2.tokens) :
    Yields (memberChars [(some m.1, m.2)]) (memberTokens [(some m.1, m.2)]) := by
  intro rest ts stop more
  have colon : Cut (':' :: (m.2.chars ++ rest)) (.colon :: (m.2.tokens ++ ts)) :=
    (h stop more).cons rfl (by decide) (Nat.le_refl _)
  simpa [memberChars, memberTokens] using colon.quoted m.1

/-- The members of an object are cut into their tokens if their values are. -/
theorem yields_members : ∀ {members : List (String × Json)},
    (∀ m ∈ members, Yields m.2.chars m.2.tokens) →
    Yields (memberChars (members.map fun m => (some m.1, m.2)))
      (memberTokens (members.map fun m => (some m.1, m.2)))
  | [], _, _, _, _, more => more
  | [m], each, _, _, stop, more => yields_member (each m (.head _)) stop more
  | m :: k :: members, each, rest, ts, stop, more => by
    have later := yields_members (fun i mem => each i (.tail _ mem)) stop more
    have comma := later.cons (c := ',') (t := .comma) rfl (by decide) (Nat.le_refl _)
    have first := yields_member (each m (.head _)) (stops_cons (by decide)) comma
    simpa [memberChars, memberTokens] using first

/-- What is written for a value is cut into its tokens. -/
theorem Consists.yields {j : Json} (h : j.Consists Number.Proper) : Yields j.chars j.tokens := by
  induction h with
  | null => exact fun _ more => more.cons (c := 'n') rfl (by decide) (by simp; omega)
  | bool b =>
    cases b with
    | true => exact fun _ more => more.cons (c := 't') rfl (by decide) (by simp; omega)
    | false => exact fun _ more => more.cons (c := 'f') rfl (by decide) (by simp; omega)
  | number proper => exact fun stop more => more.number stop proper
  | text s => exact fun _ more => more.quoted s
  | array each ih =>
    intro rest ts _ more
    have last : Cut (']' :: rest) (.closeBracket :: ts) := more.cons rfl (by decide) (Nat.le_refl _)
    have all := yields_items ih (stops_cons (by decide)) last
    simpa [chars, tokens] using all.cons (c := '[') rfl (by decide) (Nat.le_refl _)
  | object each ih =>
    intro rest ts _ more
    have last : Cut ('\x7d' :: rest) (.closeBrace :: ts) :=
      more.cons rfl (by decide) (Nat.le_refl _)
    have all := yields_members ih (stops_cons (by decide)) last
    simpa [ofMembers, chars, tokens] using
      all.cons (c := '\x7b') rfl (by decide) (Nat.le_refl _)

/-! ### Values -/

/-- The tokens of a value are read as it, whatever follows them. -/
def ReadBack (j : Json) : Prop := ∀ fuel rest, 2 * j.tokens.length ≤ fuel →
  parseValue fuel (j.tokens ++ rest) = some (j, rest)

/-- The items of an array are read up to its bracket if each of them is read. -/
theorem parseItems_itemTokens (rest : List Token) : ∀ (items : List Json) (fuel : Nat),
    items ≠ [] → (∀ j ∈ items, ReadBack j) → 2 * (itemTokens items).length < fuel →
    parseItems fuel (itemTokens items ++ .closeBracket :: rest) = some (items, rest)
  | [], _, given, _, _ => absurd rfl given
  | _, 0, _, _, room => absurd room (Nat.not_lt_zero _)
  | [j], fuel + 1, _, each, room => by
    have read := each j (.head _) fuel (.closeBracket :: rest) (Nat.le_of_lt_succ room)
    simp [parseItems, itemTokens, read]
  | j :: k :: items, fuel + 1, _, each, room => by
    have split : itemTokens (j :: k :: items) = j.tokens ++ .comma :: itemTokens (k :: items) := by
      rw [itemTokens]
      nofun
    rw [split, List.length_append, List.length_cons] at room
    have later := parseItems_itemTokens rest (k :: items) fuel (List.cons_ne_nil k items)
      (fun i mem => each i (.tail _ mem)) (by omega)
    have read := each j (.head _) fuel
      (.comma :: (itemTokens (k :: items) ++ .closeBracket :: rest)) (by omega)
    rw [split, List.append_assoc, List.cons_append, parseItems]
    simp [read, later]

/-- The members of an object are read up to its brace if their values are read. -/
theorem parseMembers_memberTokens (rest : List Token) :
    ∀ (members : List (Option String × Json)) (fuel : Nat), members ≠ [] →
    (∀ m ∈ members, ReadBack m.2) → 2 * (memberTokens members).length < fuel →
    parseMembers fuel (memberTokens members ++ .closeBrace :: rest) = some (members, rest)
  | [], _, given, _, _ => absurd rfl given
  | _, 0, _, _, room => absurd room (Nat.not_lt_zero _)
  | [(name, j)], fuel + 1, _, each, room => by
    rw [memberTokens, List.length_cons, List.length_cons] at room
    have value : ReadBack j := each (name, j) (.head _)
    have read := value fuel (.closeBrace :: rest) (by omega)
    simp [parseMembers, memberTokens, read]
  | (name, j) :: k :: members, fuel + 1, _, each, room => by
    have split : memberTokens ((name, j) :: k :: members) =
        .string name :: .colon :: (j.tokens ++ .comma :: memberTokens (k :: members)) := by
      rw [memberTokens]
      nofun
    rw [split, List.length_cons, List.length_cons, List.length_append, List.length_cons] at room
    have later := parseMembers_memberTokens rest (k :: members) fuel
      (List.cons_ne_nil k members) (fun i mem => each i (.tail _ mem)) (by omega)
    have value : ReadBack j := each (name, j) (.head _)
    have read := value fuel (.comma :: (memberTokens (k :: members) ++ .closeBrace :: rest))
      (by omega)
    simp only [split, List.cons_append, List.append_assoc, parseMembers]
    simp [read, later]

/-- The tokens of a value do not begin with a bracket that closes. -/
theorem tokens_append_ne (j : Json) (rest more : List Token) :
    j.tokens ++ rest ≠ .closeBracket :: more := by
  cases j <;> simp [tokens]

theorem readBack_array {items : List Json} (each : ∀ j ∈ items, ReadBack j) :
    ReadBack (.array items) := by
  intro fuel rest room
  simp only [tokens, List.length_cons, List.length_append, List.length_nil] at room
  obtain ⟨fuel, rfl⟩ : ∃ k, fuel = k + 1 := ⟨fuel - 1, by omega⟩
  cases items with
  | nil => rfl
  | cons j items =>
    have read := parseItems_itemTokens rest (j :: items) fuel (List.cons_ne_nil j items) each
      (by omega)
    have goes_on (more : List Token) :
        itemTokens (j :: items) ++ .closeBracket :: rest ≠ .closeBracket :: more := by
      cases items with
      | nil => exact tokens_append_ne j _ more
      | cons k items =>
        rw [itemTokens, List.append_assoc]
        · exact tokens_append_ne j _ more
        · nofun
    -- an array that goes on is not read as an empty one
    simp [tokens, parseValue, read]

theorem readBack_object {members : List (Option String × Json)}
    (each : ∀ m ∈ members, ReadBack m.2) : ReadBack (.object members) := by
  intro fuel rest room
  simp only [tokens, List.length_cons, List.length_append, List.length_nil] at room
  obtain ⟨fuel, rfl⟩ : ∃ k, fuel = k + 1 := ⟨fuel - 1, by omega⟩
  rcases members with _ | ⟨⟨name, j⟩, members⟩
  case nil => rfl
  case cons =>
    have read := parseMembers_memberTokens rest ((name, j) :: members) fuel
      (List.cons_ne_nil (name, j) members) each (by omega)
    have goes_on (more : List Token) :
        memberTokens ((name, j) :: members) ++ .closeBrace :: rest ≠ .closeBrace :: more := by
      cases members <;> simp [memberTokens]
    -- an object that goes on is not read as an empty one
    simp [tokens, parseValue, read]

/-- A value of one token is read back if the token is. -/
theorem readBack_of_single {j : Json} {t : Token} (single : j.tokens = [t])
    (direct : ∀ fuel rest, parseValue (fuel + 1) (t :: rest) = some (j, rest)) : ReadBack j := by
  intro fuel rest room
  rw [single, List.length_singleton] at room
  obtain ⟨fuel, rfl⟩ : ∃ k, fuel = k + 1 := ⟨fuel - 1, by omega⟩
  rw [single]
  exact direct fuel rest

/-- The tokens of a value are read as it. -/
theorem Consists.readBack {allowed : Number → Prop} {j : Json} (h : j.Consists allowed) :
    ReadBack j := by
  induction h with
  | null => exact readBack_of_single rfl fun _ _ => rfl
  | bool b => exact readBack_of_single rfl fun _ _ => rfl
  | number => exact readBack_of_single rfl fun _ _ => rfl
  | text s => exact readBack_of_single rfl fun _ _ => rfl
  | array each ih => exact readBack_array ih
  | object each ih =>
    refine readBack_object fun m mem => ?_
    obtain ⟨own, given, rfl⟩ := List.mem_map.1 mem
    exact ih own given

/-- What is written for a value of texts and proper numbers is read as this value. -/
theorem parse_render {j : Json} (h : j.Consists Number.Proper) : parse j.render = some j := by
  have stop : Stops [] := nofun
  have cut := (h.yields stop Cut.nil).lex
  rw [List.append_nil, List.append_nil] at cut
  have read := h.readBack (2 * j.tokens.length) [] (Nat.le_refl _)
  rw [List.append_nil] at read
  simp [parse, render, cut, read]

end JigLedger.Json
