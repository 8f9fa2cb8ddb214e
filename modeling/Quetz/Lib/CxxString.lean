import Mathlib.Data.List.Basic
import Mathlib.Data.List.TakeWhile
import Mathlib.Algebra.Group.Nat.Defs
import Mathlib.Tactic.SplitIfs

/-!
# Strings and Numbers of the C++ Library

Searching and cutting a `std::string`, and `std::stoull` with base 0. A string is the list of its
characters; `npos` is `none`. `stoull` skips white space and a sign, takes the base from the
prefix, and converts the longest run of digits, whatever follows it.

## Main results

* `eq_append_of_find`, `find_eq_none_iff`: what a search that starts in the middle finds.
* `stoull_eq_ok_iff`: a text is converted as a whole exactly when it is a literal that fits.
* `stoull_hex`: a printed number is read back.
-/

namespace CxxString

/-! ### Searching and cutting -/

/-- The first position of a character from `pos` on. -/
def find (s : List Char) (c : Char) (pos : ℕ) : Option ℕ :=
  ((s.drop pos).findIdx? (· == c)).map (pos + ·)

/-- At most `count` characters from `pos` on; `pos` is inside the string or at its end. -/
def substr (s : List Char) (pos : ℕ) (count : Option ℕ) : List Char :=
  match count with
  | none => s.drop pos
  | some count => (s.drop pos).take count

/-- The first position of a text. -/
def findText (s t : List Char) : Option ℕ :=
  (List.range (s.length + 1)).find? fun i => t.isPrefixOf (s.drop i)

section

variable {s : List Char} {c : Char} {pos e : ℕ}

/-- A search that fails. -/
theorem find_eq_none_iff : find s c pos = none ↔ c ∉ s.drop pos := by
  rw [find, Option.map_eq_none_iff, List.findIdx?_eq_none_iff]
  constructor
  · intro h hc
    simpa using h c hc
  · rintro hc x hx
    exact beq_false_of_ne (ne_of_mem_of_not_mem hx hc)

/-- A search finds the first position of the character. -/
theorem find_eq_some {l r : List Char} (h : s.drop pos = l ++ c :: r) (hc : c ∉ l) :
    find s c pos = some (pos + l.length) := by
  have hidx : (l ++ c :: r).findIdx? (· == c) = some l.length := by
    rw [List.findIdx?_append, List.findIdx?_eq_none_iff.mpr, Option.none_or, List.findIdx?_cons,
      beq_self_eq_true]
    · simp
    · intro x hx
      exact beq_false_of_ne (ne_of_mem_of_not_mem hx hc)
  rw [find, h, hidx, Option.map_some]

/-- A search that succeeds cuts the string at the character. -/
theorem eq_append_of_find (h : find s c pos = some e) :
    pos ≤ e ∧ e < s.length ∧ c ∉ (s.drop pos).take (e - pos) ∧
      s.drop pos = (s.drop pos).take (e - pos) ++ c :: s.drop (e + 1) := by
  obtain ⟨i, hi, rfl⟩ := Option.map_eq_some_iff.mp h
  obtain ⟨hlt, hc, hbefore⟩ := List.findIdx?_eq_some_iff_getElem.mp hi
  have hlen : i < s.length - pos := by simpa using hlt
  rw [Nat.add_sub_cancel_left]
  refine ⟨Nat.le_add_right _ _, by omega, fun hmem => ?_, ?_⟩
  · obtain ⟨j, hj, hjc⟩ := List.getElem_of_mem hmem
    rw [List.getElem_take] at hjc
    have hji : j < i := by
      rw [List.length_take] at hj
      omega
    have := hbefore j hji
    simp [hjc] at this
  · have hdrop : s.drop (pos + i + 1) = (s.drop pos).drop (i + 1) := by
      rw [List.drop_drop]
      congr 1
    have hhead : (s.drop pos)[i] = c := by simpa using hc
    rw [hdrop, ← hhead, ← List.drop_eq_getElem_cons hlt, List.take_append_drop]

/-- A search for a text that fails. -/
theorem findText_eq_none_iff {t : List Char} : findText s t = none ↔ ∀ l r, s ≠ l ++ t ++ r := by
  rw [findText, List.find?_eq_none]
  constructor
  · rintro h l r rfl
    refine h l.length (List.mem_range.mpr ?_) ?_
    · simp only [List.length_append]
      omega
    · rw [List.append_assoc, List.drop_left, List.isPrefixOf_iff_prefix]
      exact List.prefix_append t r
  · intro h i _ hi
    obtain ⟨r, hr⟩ := List.isPrefixOf_iff_prefix.mp hi
    refine h (s.take i) r ?_
    rw [List.append_assoc, hr, List.take_append_drop]

/-- Cutting a string before the first occurrence of a character. -/
theorem substr_find (s : List Char) (c : Char) :
    substr s 0 (find s c 0) = s.takeWhile (· != c) := by
  cases hfind : find s c 0 with
  | none =>
      have hc := find_eq_none_iff.mp hfind
      refine (List.takeWhile_eq_self_iff.mpr fun x hx => ?_).symm
      exact bne_iff_ne.mpr (ne_of_mem_of_not_mem hx hc)
  | some e =>
      obtain ⟨-, -, hbefore, hcut⟩ := eq_append_of_find hfind
      rw [List.drop_zero, Nat.sub_zero] at hbefore hcut
      have hall : ∀ x ∈ s.take e, (x != c) = true := fun x hx =>
        bne_iff_ne.mpr (ne_of_mem_of_not_mem hx hbefore)
      show s.take e = _
      conv_rhs => rw [hcut]
      rw [List.takeWhile_append_of_pos hall, List.takeWhile_cons_of_neg (by simp), List.append_nil]

/-- Cutting a string after the first occurrence of a character. -/
theorem eq_of_find (h : find s c 0 = some e) :
    s = s.takeWhile (· != c) ++ c :: substr s (e + 1) none := by
  obtain ⟨-, -, -, hcut⟩ := eq_append_of_find h
  rw [List.drop_zero, Nat.sub_zero] at hcut
  rw [← substr_find, h]
  exact hcut

/-- The text before the first separator, and the rest. -/
theorem append_cons_inj {x₁ x₂ z₁ z₂ : List Char} {c : Char} (h₁ : c ∉ x₁) (h₂ : c ∉ x₂)
    (h : x₁ ++ c :: z₁ = x₂ ++ c :: z₂) : x₁ = x₂ ∧ z₁ = z₂ := by
  induction x₁ generalizing x₂ with
  | nil =>
      cases x₂ with
      | nil => exact ⟨rfl, (List.cons.inj h).2⟩
      | cons b x₂ => exact absurd ((List.cons.inj h).1 ▸ List.mem_cons_self) h₂
  | cons a x₁ ih =>
      cases x₂ with
      | nil => exact absurd ((List.cons.inj h).1 ▸ List.mem_cons_self) h₁
      | cons b x₂ =>
          obtain ⟨rfl, htail⟩ := List.cons.inj h
          obtain ⟨rfl, rfl⟩ :=
            ih (List.not_mem_of_not_mem_cons h₁) (List.not_mem_of_not_mem_cons h₂) htail
          exact ⟨rfl, rfl⟩

end

/-! ### Digits -/

/-- The value of a digit; a letter of either case is one from ten on. -/
def digitValue (c : Char) : Option ℕ :=
  if '0' ≤ c ∧ c ≤ '9' then some (c.toNat - '0'.toNat)
  else if 'a' ≤ c ∧ c ≤ 'f' then some (c.toNat - 'a'.toNat + 10)
  else if 'A' ≤ c ∧ c ≤ 'F' then some (c.toNat - 'A'.toNat + 10)
  else none

/-- The character is a digit of the base. -/
def isDigit (base : ℕ) (c : Char) : Bool := (digitValue c).any fun v => decide (v < base)

/-- The number a run of digits denotes. -/
def valueOf (base : ℕ) (digits : List Char) : ℕ :=
  digits.foldl (fun n c => base * n + (digitValue c).getD 0) 0

/-- The text is an integer literal without a sign and a suffix: decimal, octal from a zero on, or
hexadecimal after `0x`. -/
inductive UnsignedLiteral : List Char → ℕ → Prop
  | decimal {d : Char} {ds : List Char} (hd : d ≠ '0') (hds : (d :: ds).all (isDigit 10) = true) :
      UnsignedLiteral (d :: ds) (valueOf 10 (d :: ds))
  | octal {ds : List Char} (hds : ds.all (isDigit 8) = true) :
      UnsignedLiteral ('0' :: ds) (valueOf 8 ds)
  | hex {x : Char} {ds : List Char} (hx : x = 'x' ∨ x = 'X') (hne : ds ≠ [])
      (hds : ds.all (isDigit 16) = true) : UnsignedLiteral ('0' :: x :: ds) (valueOf 16 ds)

/-! ### Exceptions -/

/-- A computation that throws nowhere. -/
theorem bind_eq_ok_iff {ε α β : Type} {x : Except ε α} {f : α → Except ε β} {b : β} :
    x >>= f = .ok b ↔ ∃ a, x = .ok a ∧ f a = .ok b := by
  cases x with
  | error e => exact iff_of_false (by rintro ⟨⟩) (by rintro ⟨a, ⟨⟩, -⟩)
  | ok a => exact ⟨fun h => ⟨a, rfl, h⟩, by rintro ⟨_, ⟨⟩, h⟩; exact h⟩

/-! ### Conversion -/

/-- The exceptions of a conversion. -/
inductive StoullError where
  | invalidArgument
  | outOfRange
deriving DecidableEq, Repr

def isSpace (c : Char) : Bool := c == ' ' || (decide ('\t' ≤ c) && decide (c ≤ '\r'))

/-- The base of a text without a sign, and the length of the prefix that says so. -/
def baseOf : List Char → ℕ × ℕ
  | '0' :: x :: d :: _ => if (x == 'x' || x == 'X') && isDigit 16 d then (16, 2) else (8, 0)
  | '0' :: _ => (8, 0)
  | _ => (10, 0)

/-- The text after its sign. -/
def unsigned : List Char → List Char
  | '+' :: s => s
  | '-' :: s => s
  | s => s

/-- The digits of a text without a sign. -/
def digitsOf (text : List Char) : List Char :=
  (text.drop (baseOf text).2).takeWhile (isDigit (baseOf text).1)

/-- `std::stoull` with base 0: the value, modulo `2 ^ 64` after a minus, and the number of
characters used. -/
def stoull (text : List Char) : Except StoullError (ℕ × ℕ) :=
  let unspaced := text.dropWhile isSpace
  let number := unsigned unspaced
  let digits := digitsOf number
  let value := valueOf (baseOf number).1 digits
  if digits.isEmpty then .error .invalidArgument
  else if 2 ^ 64 ≤ value then .error .outOfRange
  else
    let negative := unspaced.head? == some '-'
    .ok (if negative then (2 ^ 64 - value) % 2 ^ 64 else value,
      text.length - number.length + (baseOf number).2 + digits.length)

section

variable {text : List Char} {v : ℕ}

example : stoull ['0', 'x', '1', 'F', 'x'] = .ok (31, 4) := by decide

/-- A leading zero is the first digit of an octal number. -/
theorem valueOf_zero (base : ℕ) (ds : List Char) : valueOf base ('0' :: ds) = valueOf base ds := by
  rfl

/-- A text that begins with neither white space nor a sign. -/
theorem stoull_unsigned (hhead : ∀ c ∈ text.head?, isSpace c = false ∧ c ≠ '+' ∧ c ≠ '-') :
    stoull text =
      if (digitsOf text).isEmpty then .error .invalidArgument
      else if 2 ^ 64 ≤ valueOf (baseOf text).1 (digitsOf text) then .error .outOfRange
      else .ok (valueOf (baseOf text).1 (digitsOf text),
        (baseOf text).2 + (digitsOf text).length) := by
  have hunspaced : text.dropWhile isSpace = text := by
    cases text with
    | nil => rfl
    | cons c cs => exact List.dropWhile_cons_of_neg (by simp [(hhead c rfl).1])
  have hunsigned : unsigned text = text := by
    cases text with
    | nil => rfl
    | cons c cs =>
        have hsign := (hhead c rfl).2
        rw [unsigned]
        · exact fun s h => hsign.1 (List.cons.inj h).1
        · exact fun s h => hsign.2 (List.cons.inj h).1
  have hpositive : ¬(text.head? == some '-') = true := fun h =>
    absurd rfl (hhead '-' (by simpa using h)).2.2
  rw [stoull]
  simp only [hunspaced, hunsigned, if_neg hpositive, Nat.sub_self, Nat.zero_add]

/-- A run of digits that is as long as the text is the text. -/
theorem all_of_length_takeWhile {p : Char → Bool} {l : List Char}
    (h : (l.takeWhile p).length = l.length) : l.all p = true := by
  have heq := (List.takeWhile_prefix p).eq_of_length h
  rw [List.all_eq_true]
  exact List.takeWhile_eq_self_iff.mp heq

theorem takeWhile_of_all {p : Char → Bool} {l : List Char} (h : l.all p = true) :
    l.takeWhile p = l :=
  List.takeWhile_eq_self_iff.mpr (List.all_eq_true.mp h)

theorem baseOf_decimal {d : Char} (ds : List Char) (hd : d ≠ '0') : baseOf (d :: ds) = (10, 0) := by
  rw [baseOf]
  · rintro x d' ds' h
    exact hd (List.cons.inj h).1
  · rintro ds' h
    exact hd (List.cons.inj h).1

theorem baseOf_octal {ds : List Char} (hds : ds.all (isDigit 8) = true) :
    baseOf ('0' :: ds) = (8, 0) := by
  match ds with
  | [] | [_] => rfl
  | x :: d :: _ =>
    have hx : isDigit 8 x = true := List.all_eq_true.mp hds x List.mem_cons_self
    have hprefix : (x == 'x' || x == 'X') = false := by
      rw [Bool.or_eq_false_iff, beq_eq_false_iff_ne, beq_eq_false_iff_ne]
      constructor
      · rintro rfl
        exact absurd hx (by decide)
      · rintro rfl
        exact absurd hx (by decide)
    rw [baseOf, hprefix]
    rfl

theorem baseOf_hex {x d : Char} (ds : List Char) (hx : x = 'x' ∨ x = 'X')
    (hd : isDigit 16 d = true) : baseOf ('0' :: x :: d :: ds) = (16, 2) := by
  have hprefix : (x == 'x' || x == 'X') = true := by simpa using hx
  rw [baseOf, hprefix, hd]
  rfl

/-- The whole text is a literal exactly when its digits run to its end. -/
theorem unsignedLiteral_iff : UnsignedLiteral text v ↔ digitsOf text ≠ [] ∧
    (baseOf text).2 + (digitsOf text).length = text.length ∧
      v = valueOf (baseOf text).1 (digitsOf text) := by
  constructor
  · intro h
    cases h with
    | @decimal d ds hd hds =>
        rw [digitsOf, baseOf_decimal ds hd, List.drop_zero, takeWhile_of_all hds]
        exact ⟨List.cons_ne_nil _ _, Nat.zero_add _, rfl⟩
    | @octal ds hds =>
        have hall : ('0' :: ds).all (isDigit 8) = true := by
          rw [List.all_cons, hds]
          decide
        rw [digitsOf, baseOf_octal hds, List.drop_zero, takeWhile_of_all hall]
        exact ⟨List.cons_ne_nil _ _, Nat.zero_add _, (valueOf_zero 8 ds).symm⟩
    | @hex x ds hx hne hds =>
        obtain ⟨d, ds, rfl⟩ := List.exists_cons_of_ne_nil hne
        have hd : isDigit 16 d = true := List.all_eq_true.mp hds d List.mem_cons_self
        rw [digitsOf, baseOf_hex ds hx hd, List.drop_succ_cons, List.drop_succ_cons,
          List.drop_zero, takeWhile_of_all hds]
        exact ⟨hne, Nat.add_comm _ _, rfl⟩
  · rintro ⟨hne, hlen, rfl⟩
    have hplain : (baseOf text).2 = 0 → text.all (isDigit (baseOf text).1) = true := by
      intro hzero
      rw [digitsOf, hzero, List.drop_zero, Nat.zero_add] at hlen
      exact all_of_length_takeWhile hlen
    match text with
    | [] => exact absurd rfl hne
    | d :: ds =>
      by_cases hd : d = '0'
      swap
      · rw [baseOf_decimal ds hd] at hplain
        rw [digitsOf, baseOf_decimal ds hd, List.drop_zero, takeWhile_of_all (hplain rfl)]
        exact .decimal hd (hplain rfl)
      subst hd
      have hoctal : baseOf ('0' :: ds) = (8, 0) →
          UnsignedLiteral ('0' :: ds) (valueOf (baseOf ('0' :: ds)).1 (digitsOf ('0' :: ds))) := by
        intro hbase
        rw [hbase] at hplain
        have hall := hplain rfl
        rw [digitsOf, hbase, List.drop_zero, takeWhile_of_all hall, valueOf_zero]
        rw [List.all_cons, Bool.and_eq_true] at hall
        exact .octal hall.2
      match ds with
      | [] | [_] => exact hoctal rfl
      | x :: d :: ds =>
        cases hprefix : (x == 'x' || x == 'X') && isDigit 16 d with
        | false => exact hoctal (by rw [baseOf, hprefix]; rfl)
        | true =>
            rw [Bool.and_eq_true, Bool.or_eq_true, beq_iff_eq, beq_iff_eq] at hprefix
            obtain ⟨hx, hd⟩ := hprefix
            rw [digitsOf, baseOf_hex ds hx hd, List.drop_succ_cons, List.drop_succ_cons,
              List.drop_zero] at hlen ⊢
            have hds := all_of_length_takeWhile (p := isDigit 16) (l := d :: ds) (by
              simp only [List.length_cons] at hlen ⊢
              omega)
            rw [takeWhile_of_all hds]
            exact .hex hx (List.cons_ne_nil _ _) hds

/-- **A text is converted as a whole exactly when it is a literal that fits**, if it begins with
neither white space nor a sign. -/
theorem stoull_eq_ok_iff (hhead : ∀ c ∈ text.head?, isSpace c = false ∧ c ≠ '+' ∧ c ≠ '-') :
    stoull text = .ok (v, text.length) ↔ UnsignedLiteral text v ∧ v < 2 ^ 64 := by
  rw [stoull_unsigned hhead, unsignedLiteral_iff]
  by_cases hempty : digitsOf text = []
  · rw [if_pos (by rw [hempty]; rfl)]
    exact iff_of_false (by simp) fun h => h.1.1 hempty
  rw [if_neg (by simpa using hempty)]
  by_cases hlarge : 2 ^ 64 ≤ valueOf (baseOf text).1 (digitsOf text)
  · rw [if_pos hlarge]
    refine iff_of_false (by simp) fun h => ?_
    rw [h.1.2.2] at h
    exact absurd h.2 (Nat.not_lt.mpr hlarge)
  rw [if_neg hlarge, Except.ok.injEq, Prod.mk.injEq]
  constructor
  · rintro ⟨rfl, hlen⟩
    exact ⟨⟨hempty, hlen, rfl⟩, Nat.lt_of_not_le hlarge⟩
  · rintro ⟨⟨-, hlen, rfl⟩, -⟩
    exact ⟨rfl, hlen⟩

end

/-! ### Printing -/

section

variable {base n : ℕ} {c : Char} {ds : List Char} {d : ℕ}

/-- The digits of `printf` are digits. -/
theorem digitValue_digitChar (h : d < 16) : digitValue (Nat.digitChar d) = some d := by
  have hall : ∀ d : Fin 16, digitValue (Nat.digitChar d) = some d.val := by decide
  exact hall ⟨d, h⟩

theorem valueOf_concat :
    valueOf base (ds ++ [c]) = base * valueOf base ds + (digitValue c).getD 0 := by
  rw [valueOf, List.foldl_append]
  rfl

/-- A printed number is read back. -/
theorem toDigits_spec (hbase : 1 < base) (h16 : base ≤ 16) (n : ℕ) :
    (Nat.toDigits base n).all (isDigit base) = true ∧ valueOf base (Nat.toDigits base n) = n := by
  induction n using Nat.strongRecOn with
  | ind n ih =>
      have hdigit : ∀ d, d < base → isDigit base (Nat.digitChar d) = true := by
        intro d hd
        rw [isDigit, digitValue_digitChar (hd.trans_le h16)]
        simpa using hd
      by_cases hn : n < base
      · rw [Nat.toDigits_of_lt_base hn]
        refine ⟨by simpa using hdigit n hn, ?_⟩
        simp [valueOf, digitValue_digitChar (hn.trans_le h16)]
      · have hle := not_lt.mp hn
        obtain ⟨hall, hvalue⟩ := ih (n / base) (Nat.div_lt_self (by omega) hbase)
        have hmod := Nat.mod_lt n (by omega : base > 0)
        rw [Nat.toDigits_of_base_le hbase hle, List.all_append, hall, valueOf_concat, hvalue,
          digitValue_digitChar (hmod.trans_le h16)]
        exact ⟨by simpa using hdigit _ hmod, Nat.div_add_mod n base⟩

/-- Printing with `0x` and reading with base 0. -/
theorem stoull_hex (h : n < 2 ^ 64) :
    stoull ('0' :: 'x' :: Nat.toDigits 16 n) =
      .ok (n, ('0' :: 'x' :: Nat.toDigits 16 n).length) := by
  obtain ⟨hall, hvalue⟩ := toDigits_spec (by decide) le_rfl n
  refine (stoull_eq_ok_iff ?_).mpr ⟨?_, h⟩
  · rintro c hc
    obtain rfl := Option.some.inj hc
    decide
  · have hhex := UnsignedLiteral.hex (.inl rfl) Nat.toDigits_ne_nil hall
    rwa [hvalue] at hhex

/-- A digit is a letter or a figure. -/
theorem ne_of_isDigit {d : Char} (hd : isDigit 16 d = true) (hc : digitValue c = none) : d ≠ c := by
  rintro rfl
  rw [isDigit, hc] at hd
  exact Bool.noConfusion hd

end

end CxxString
