import Mathlib.Tactic

/-!
# JSON

JSON texts by the standard grammar: values, a reader and a compact writer.  A text is its list of
characters.  The reader gives back every value whose numbers are integers from what the writer writes for
it (`parse_render`).
-/

namespace Land

/-- A JSON value.  A number is its sign, its integer part and the text of its fraction and exponent; the
members of an object are in the order of the text, repeated names included. -/
inductive Json where
  | null
  | bool (b : Bool)
  | num (negative : Bool) (whole : ℕ) (tail : List Char)
  | str (s : List Char)
  | arr (vs : List Json)
  | obj (ms : List (List Char × Json))

namespace Json

/-! ## Writing -/

/-- The letter that stands for a character after a backslash. -/
def shortEscape (c : Char) : Option Char :=
  if c = '"' then some '"'
  else if c = '\\' then some '\\'
  else if c = '\x08' then some 'b'
  else if c = '\t' then some 't'
  else if c = '\n' then some 'n'
  else if c = '\x0c' then some 'f'
  else if c = '\r' then some 'r'
  else none

/-- A character inside a string. -/
def escape (c : Char) : List Char :=
  match shortEscape c with
  | some e => ['\\', e]
  | none =>
      if c.toNat < 32 then
        ['\\', 'u', '0', '0', Nat.digitChar (c.toNat / 16), Nat.digitChar (c.toNat % 16)]
      else [c]

/-- A string with its quotes. -/
def quote (s : List Char) : List Char := '"' :: (s.flatMap escape ++ ['"'])

/-- A number. -/
def renderNumber (negative : Bool) (whole : ℕ) (tail : List Char) : List Char :=
  (if negative then ['-'] else []) ++ Nat.toDigits 10 whole ++ tail

mutual

/-- The text of a value, without white space. -/
def render : Json → List Char
  | null => ['n', 'u', 'l', 'l']
  | bool true => ['t', 'r', 'u', 'e']
  | bool false => ['f', 'a', 'l', 's', 'e']
  | num negative whole tail => renderNumber negative whole tail
  | str s => quote s
  | arr vs => '[' :: (renderElements vs ++ [']'])
  | obj ms => '{' :: (renderMembers ms ++ ['}'])

/-- The elements of an array. -/
def renderElements : List Json → List Char
  | [] => []
  | v :: vs => render v ++ renderMoreElements vs

/-- The elements after the first. -/
def renderMoreElements : List Json → List Char
  | [] => []
  | v :: vs => ',' :: (render v ++ renderMoreElements vs)

/-- The members of an object. -/
def renderMembers : List (List Char × Json) → List Char
  | [] => []
  | (k, v) :: ms => quote k ++ ':' :: (render v ++ renderMoreMembers ms)

/-- The members after the first. -/
def renderMoreMembers : List (List Char × Json) → List Char
  | [] => []
  | (k, v) :: ms => ',' :: (quote k ++ ':' :: (render v ++ renderMoreMembers ms))

end

/-! ## Reading -/

/-- The text after white space. -/
def skip (l : List Char) : List Char :=
  l.dropWhile fun c => c = ' ' || c = '\t' || c = '\n' || c = '\r'

/-- The value of a hexadecimal digit. -/
def hexValue (c : Char) : Option ℕ :=
  if c.isDigit then some (c.toNat - 48)
  else if 'a' ≤ c ∧ c ≤ 'f' then some (c.toNat - 87)
  else if 'A' ≤ c ∧ c ≤ 'F' then some (c.toNat - 55)
  else none

/-- The four digits of a `\u` escape. -/
def readHex : List Char → Option (ℕ × List Char)
  | a :: b :: c :: d :: l => do
      let a ← hexValue a
      let b ← hexValue b
      let c ← hexValue c
      let d ← hexValue d
      some (((a * 16 + b) * 16 + c) * 16 + d, l)
  | _ => none

/-- The character of a `\u` escape or of two of them that make a surrogate pair. -/
def readUnicode (l : List Char) : Option (Char × List Char) := do
  let (high, l) ← readHex l
  if 0xD800 ≤ high ∧ high < 0xDC00 then
    match l with
    | '\\' :: 'u' :: l => do
        let (low, l) ← readHex l
        if 0xDC00 ≤ low ∧ low < 0xE000 then
          some (Char.ofNat (0x10000 + (high - 0xD800) * 0x400 + (low - 0xDC00)), l)
        else none
    | _ => none
  else if 0xDC00 ≤ high ∧ high < 0xE000 then none
  else some (Char.ofNat high, l)

/-- The character that a letter after a backslash stands for. -/
def unescape : Char → Option Char
  | '"' => some '"'
  | '\\' => some '\\'
  | '/' => some '/'
  | 'b' => some '\x08'
  | 'f' => some '\x0c'
  | 'n' => some '\n'
  | 'r' => some '\r'
  | 't' => some '\t'
  | _ => none

/-- One character of a string. -/
def readChar : List Char → Option (Char × List Char)
  | [] => none
  | c :: l =>
      if c = '\\' then
        match l with
        | [] => none
        | e :: l => if e = 'u' then readUnicode l else (unescape e).map (·, l)
      else if c.toNat < 32 then none
      else some (c, l)

/-- The rest of a string, up to the closing quote. -/
def readString : ℕ → List Char → Option (List Char × List Char)
  | 0, _ => none
  | n + 1, l =>
      if l.head? = some '"' then some ([], l.tail)
      else do
        let (c, l) ← readChar l
        let (s, l) ← readString n l
        some (c :: s, l)

/-- A nonempty row of digits. -/
def readDigits (l : List Char) : Option (List Char × List Char) :=
  if l.takeWhile Char.isDigit = [] then none
  else some (l.takeWhile Char.isDigit, l.dropWhile Char.isDigit)

/-- The integer part of a number: without a leading zero. -/
def readWhole (l : List Char) : Option (ℕ × List Char) := do
  let (ds, l) ← readDigits l
  if ds.head? = some '0' ∧ ds ≠ ['0'] then none else some (Nat.ofDigitChars 10 ds 0, l)

/-- The fraction of a number, if there is one. -/
def readFraction (l : List Char) : Option (List Char × List Char) :=
  if l.head? = some '.' then (readDigits l.tail).map fun p => ('.' :: p.1, p.2) else some ([], l)

/-- The exponent of a number, if there is one. -/
def readExponent : List Char → Option (List Char × List Char)
  | [] => some ([], [])
  | e :: l =>
      if e = 'e' ∨ e = 'E' then
        match l with
        | [] => none
        | s :: l' =>
            if s = '+' ∨ s = '-' then (readDigits l').map fun p => (e :: s :: p.1, p.2)
            else (readDigits l).map fun p => (e :: p.1, p.2)
      else some ([], e :: l)

/-- A number. -/
def readNumber (l : List Char) : Option (Json × List Char) := do
  let negative := l.head? = some '-'
  let (whole, l) ← readWhole (if negative then l.tail else l)
  let (fraction, l) ← readFraction l
  let (exponent, l) ← readExponent l
  some (num negative whole (fraction ++ exponent), l)

/-- The name of a member, with the colon. -/
def readKey (l : List Char) : Option (List Char × List Char) :=
  match skip l with
  | '"' :: l => do
      let (k, l) ← readString l.length l
      match skip l with
      | ':' :: l => some (k, l)
      | _ => none
  | _ => none

/-- Whether a text starts like a number. -/
def startsNumber (l : List Char) : Bool := l.head?.any fun c => c = '-' || c.isDigit

mutual

/-- A value. -/
def readValue : ℕ → List Char → Option (Json × List Char)
  | 0, _ => none
  | n + 1, l =>
      let l := skip l
      if startsNumber l then readNumber l
      else
        match l with
        | 'n' :: 'u' :: 'l' :: 'l' :: l => some (null, l)
        | 't' :: 'r' :: 'u' :: 'e' :: l => some (bool true, l)
        | 'f' :: 'a' :: 'l' :: 's' :: 'e' :: l => some (bool false, l)
        | '"' :: l => (readString l.length l).map fun p => (str p.1, p.2)
        | '[' :: l =>
            if (skip l).head? = some ']' then some (arr [], (skip l).tail)
            else (readElements n l).map fun p => (arr p.1, p.2)
        | '{' :: l =>
            if (skip l).head? = some '}' then some (obj [], (skip l).tail)
            else (readMembers n l).map fun p => (obj p.1, p.2)
        | _ => none

/-- The elements of an array, up to the closing bracket. -/
def readElements : ℕ → List Char → Option (List Json × List Char)
  | 0, _ => none
  | n + 1, l => do
      let (v, l) ← readValue n l
      match skip l with
      | ',' :: l => (readElements n l).map fun p => (v :: p.1, p.2)
      | ']' :: l => some ([v], l)
      | _ => none

/-- The members of an object, up to the closing brace. -/
def readMembers : ℕ → List Char → Option (List (List Char × Json) × List Char)
  | 0, _ => none
  | n + 1, l => do
      let (k, l) ← readKey l
      let (v, l) ← readValue n l
      match skip l with
      | ',' :: l => (readMembers n l).map fun p => ((k, v) :: p.1, p.2)
      | '}' :: l => some ([(k, v)], l)
      | _ => none

end

/-- The value of a text. -/
def parse (l : List Char) : Option Json := do
  let (v, l) ← readValue (l.length + 1) l
  if skip l = [] then some v else none

/-! ## Reading what was written: strings and numbers -/

theorem hexValue_digitChar : ∀ n < 16, hexValue (Nat.digitChar n) = some n := by decide

theorem unescape_shortEscape {c e : Char} (h : shortEscape c = some e) : unescape e = some c ∧ e ≠ 'u' := by
  unfold shortEscape at h
  split_ifs at h with h₁ h₂ h₃ h₄ h₅ h₆ h₇
  all_goals
    cases h
    subst c
    decide

theorem shortEscape_of_printable {c : Char} (hctrl : 32 ≤ c.toNat) (hquote : c ≠ '"') (hback : c ≠ '\\') :
    shortEscape c = none := by
  have hne : ∀ d : Char, d.toNat < 32 → c ≠ d := fun d hd h => by
    rw [h] at hctrl
    omega
  rw [shortEscape, if_neg hquote, if_neg hback, if_neg (hne _ (by decide)), if_neg (hne _ (by decide)),
    if_neg (hne _ (by decide)), if_neg (hne _ (by decide)), if_neg (hne _ (by decide))]

theorem ne_of_shortEscape {c : Char} (h : shortEscape c = none) : c ≠ '"' ∧ c ≠ '\\' := by
  refine ⟨?_, ?_⟩
  · rintro rfl
    cases h
  · rintro rfl
    cases h

theorem readChar_escape (c : Char) (l : List Char) : readChar (escape c ++ l) = some (c, l) := by
  unfold escape
  split
  case _ e he =>
    obtain ⟨hun, hu⟩ := unescape_shortEscape he
    simp [readChar, hun, hu]
  case _ hnone =>
  obtain ⟨-, hback⟩ := ne_of_shortEscape hnone
  split_ifs with hctrl
  · have hread : readHex ('0' :: '0' :: Nat.digitChar (c.toNat / 16) :: Nat.digitChar (c.toNat % 16) :: l) =
        some (c.toNat, l) := by
      have h0 : hexValue '0' = some 0 := rfl
      simp only [readHex, h0, hexValue_digitChar _ (show c.toNat / 16 < 16 by omega),
        hexValue_digitChar _ (show c.toNat % 16 < 16 by omega), Option.bind_eq_bind, Option.bind_some,
        Nat.zero_mul, Nat.zero_add, Nat.div_add_mod' c.toNat 16]
    show readUnicode ('0' :: '0' :: Nat.digitChar (c.toNat / 16) :: Nat.digitChar (c.toNat % 16) :: l) = _
    simp only [readUnicode, hread, Option.bind_eq_bind, Option.bind_some]
    rw [if_neg (by omega), if_neg (by omega), Char.ofNat_toNat]
  · simp [readChar, hback, hctrl]

/-- A text without special characters is written as it is. -/
theorem flatMap_escape {s : List Char} (h : ∀ c ∈ s, 32 ≤ c.toNat ∧ c ≠ '"' ∧ c ≠ '\\') :
    s.flatMap escape = s := by
  induction s with
  | nil => rfl
  | cons c s ih =>
    obtain ⟨hctrl, hquote, hback⟩ := h c List.mem_cons_self
    have hescape : escape c = [c] := by
      rw [escape, shortEscape_of_printable hctrl hquote hback]
      exact if_neg (not_lt.2 hctrl)
    rw [List.flatMap_cons, ih fun d hd => h d (List.mem_cons_of_mem c hd), hescape]
    rfl

theorem head_escape_ne_quote (c : Char) (l : List Char) : (escape c ++ l).head? ≠ some '"' := by
  unfold escape
  split
  · simp
  case _ hnone =>
  have hquote := (ne_of_shortEscape hnone).1
  split_ifs <;> simp [hquote]

theorem escape_ne_nil (c : Char) : escape c ≠ [] := by
  unfold escape
  split
  · exact List.cons_ne_nil _ _
  · split_ifs <;> exact List.cons_ne_nil _ _

/-- A string is read up to its closing quote. -/
theorem readString_quote (s rest : List Char) {n : ℕ} (hn : s.length < n) :
    readString n (s.flatMap escape ++ '"' :: rest) = some (s, rest) := by
  induction s generalizing n with
  | nil =>
    obtain ⟨n, rfl⟩ := Nat.exists_eq_add_one_of_ne_zero (Nat.ne_of_gt hn)
    rfl
  | cons c s ih =>
    obtain ⟨n, rfl⟩ := Nat.exists_eq_add_one_of_ne_zero (Nat.ne_of_gt (Nat.zero_lt_of_lt hn))
    have hs : s.length < n := Nat.lt_of_succ_lt_succ hn
    rw [List.flatMap_cons, List.append_assoc, readString, if_neg (head_escape_ne_quote c _),
      readChar_escape]
    simp only [Option.bind_eq_bind, Option.bind_some, ih hs]

theorem length_le_flatMap_escape (s : List Char) : s.length ≤ (s.flatMap escape).length := by
  induction s with
  | nil => exact le_rfl
  | cons c s ih =>
    have hc := List.length_pos_iff.2 (escape_ne_nil c)
    rw [List.flatMap_cons, List.length_append, List.length_cons]
    omega

/-- A string is read from its text with the fuel that the text gives. -/
theorem readString_length (s rest : List Char) :
    readString (s.flatMap escape ++ '"' :: rest).length (s.flatMap escape ++ '"' :: rest) =
      some (s, rest) := by
  refine readString_quote s rest ?_
  have hs := length_le_flatMap_escape s
  rw [List.length_append, List.length_cons]
  omega

/-- Whether a number ends before a text. -/
def stops (l : List Char) : Bool :=
  l.head?.all fun c => !c.isDigit && c != '.' && c != 'e' && c != 'E'

theorem takeWhile_isDigit_append {ds rest : List Char} (hds : ∀ c ∈ ds, c.isDigit = true)
    (hrest : stops rest = true) :
    (ds ++ rest).takeWhile Char.isDigit = ds ∧ (ds ++ rest).dropWhile Char.isDigit = rest := by
  have hhead : rest.takeWhile Char.isDigit = [] ∧ rest.dropWhile Char.isDigit = rest := by
    cases rest with
    | nil => exact ⟨rfl, rfl⟩
    | cons c rest =>
      have hc : c.isDigit = false := by
        simp only [stops, List.head?_cons, Option.all_some, Bool.and_eq_true, Bool.not_eq_true'] at hrest
        exact hrest.1.1.1
      simp [hc]
  constructor
  · rw [List.takeWhile_append_of_pos hds, hhead.1, List.append_nil]
  · rw [List.dropWhile_append_of_pos hds, hhead.2]

/-- Only zero is written with a leading zero. -/
theorem eq_zero_of_toDigits {n : ℕ} {t : List Char} (h : Nat.toDigits 10 n = '0' :: t) : n = 0 := by
  induction n using Nat.strong_induction_on generalizing t with
  | _ n ih =>
    rw [Nat.toDigits_eq_if (by decide)] at h
    split_ifs at h with hlt
    · have hdigit : ∀ m < 10, Nat.digitChar m = '0' → m = 0 := by decide
      exact hdigit n hlt (List.cons.inj h).1
    · obtain ⟨c, u, hcu⟩ := List.exists_cons_of_ne_nil (Nat.toDigits_ne_nil (n := n / 10) (b := 10))
      rw [hcu] at h
      obtain rfl : c = '0' := (List.cons.inj h).1
      have := ih (n / 10) (by omega) hcu
      omega

theorem readWhole_toDigits (n : ℕ) {rest : List Char} (hrest : stops rest = true) :
    readWhole (Nat.toDigits 10 n ++ rest) = some (n, rest) := by
  have hds : ∀ c ∈ Nat.toDigits 10 n, c.isDigit = true := fun c hc =>
    Nat.isDigit_of_mem_toDigits (by decide) (by decide) hc
  obtain ⟨htake, hdrop⟩ := takeWhile_isDigit_append hds hrest
  have hread : readDigits (Nat.toDigits 10 n ++ rest) = some (Nat.toDigits 10 n, rest) := by
    rw [readDigits, htake, hdrop, if_neg Nat.toDigits_ne_nil]
  have hzero : ¬ ((Nat.toDigits 10 n).head? = some '0' ∧ Nat.toDigits 10 n ≠ ['0']) := by
    rintro ⟨hhead, hne⟩
    obtain ⟨t, ht⟩ := List.head?_eq_some_iff.1 hhead
    refine hne ?_
    rw [eq_zero_of_toDigits ht]
    rfl
  simp only [readWhole, hread, Option.bind_eq_bind, Option.bind_some]
  rw [if_neg hzero, Nat.ofDigitChars_ten_toDigits]

theorem readFraction_of_stops {l : List Char} (h : stops l = true) : readFraction l = some ([], l) := by
  refine if_neg fun hdot => ?_
  rw [stops, hdot] at h
  cases h

theorem readExponent_of_stops {l : List Char} (h : stops l = true) : readExponent l = some ([], l) := by
  cases l with
  | nil => rfl
  | cons e l =>
    refine if_neg fun he => ?_
    rcases he with rfl | rfl <;> cases h

/-- The text of a natural number starts with a digit. -/
theorem exists_toDigits_eq_cons (n : ℕ) : ∃ d t, Nat.toDigits 10 n = d :: t ∧ d.isDigit = true := by
  obtain ⟨d, t, hdt⟩ := List.exists_cons_of_ne_nil (Nat.toDigits_ne_nil (n := n) (b := 10))
  refine ⟨d, t, hdt, Nat.isDigit_of_mem_toDigits (b := 10) (n := n) (by decide) (by decide) ?_⟩
  rw [hdt]
  exact List.mem_cons_self

/-- An integer is read up to what cannot go on with it. -/
theorem readNumber_render (negative : Bool) (n : ℕ) {rest : List Char} (hrest : stops rest = true) :
    readNumber (renderNumber negative n [] ++ rest) = some (num negative n [], rest) := by
  have hwhole := readWhole_toDigits n hrest
  have hfrac := readFraction_of_stops hrest
  have hexp := readExponent_of_stops hrest
  cases negative with
  | true =>
    simp only [renderNumber, readNumber, if_true, List.append_nil, List.cons_append, List.nil_append,
      List.head?_cons, List.tail_cons, hwhole, hfrac, hexp, Option.bind_eq_bind, Option.bind_some,
      decide_true]
  | false =>
    obtain ⟨d, t, hdt, hd⟩ := exists_toDigits_eq_cons n
    have hminus : ¬ (Nat.toDigits 10 n ++ rest).head? = some '-' := by
      rw [hdt]
      intro h
      obtain rfl : d = '-' := Option.some.inj h
      cases hd
    simp only [renderNumber, readNumber, Bool.false_eq_true, if_false, List.append_nil, List.nil_append,
      if_neg hminus, hwhole, hfrac, hexp, Option.bind_eq_bind, Option.bind_some, decide_eq_false hminus]

/-! ## Reading what was written: values -/

mutual

/-- All numbers of a value are integers. -/
def integral : Json → Bool
  | num _ _ tail => tail.isEmpty
  | arr vs => integralElements vs
  | obj ms => integralMembers ms
  | _ => true

/-- The same for the elements of an array. -/
def integralElements : List Json → Bool
  | [] => true
  | v :: vs => integral v && integralElements vs

/-- The same for the members of an object. -/
def integralMembers : List (List Char × Json) → Bool
  | [] => true
  | (_, v) :: ms => integral v && integralMembers ms

end

/-- A text does not start with white space or a closing bracket. -/
def opens (l : List Char) : Bool :=
  l.head?.any fun c => !(c = ' ' || c = '\t' || c = '\n' || c = '\r' || c = ']')

theorem skip_of_opens {l : List Char} (h : opens l = true) : skip l = l := by
  cases l with
  | nil => rfl
  | cons c l =>
    simp only [opens, List.head?_cons, Option.any_some, Bool.not_eq_true', Bool.or_eq_false_iff] at h
    obtain ⟨⟨⟨⟨h₁, h₂⟩, h₃⟩, h₄⟩, -⟩ := h
    simp only [skip, List.dropWhile_cons, h₁, h₂, h₃, h₄, Bool.or_false, Bool.false_eq_true, if_false]

theorem opens_of_startsNumber {l : List Char} (h : startsNumber l = true) : opens l = true := by
  cases l with
  | nil => cases h
  | cons c l =>
    by_contra hno
    simp only [opens, List.head?_cons, Option.any_some, Bool.not_eq_true', Bool.not_eq_false,
      Bool.or_eq_true, decide_eq_true_eq] at hno
    rcases hno with (((rfl | rfl) | rfl) | rfl) | rfl <;> cases h

theorem startsNumber_render (negative : Bool) (n : ℕ) (tail rest : List Char) :
    startsNumber (renderNumber negative n tail ++ rest) = true := by
  cases negative with
  | true => rfl
  | false =>
    obtain ⟨d, t, hdt, hd⟩ := exists_toDigits_eq_cons n
    simp [renderNumber, startsNumber, hdt, hd]

theorem opens_render (v : Json) (rest : List Char) : opens (render v ++ rest) = true := by
  cases v with
  | num negative whole tail => exact opens_of_startsNumber (startsNumber_render negative whole tail rest)
  | bool b => cases b <;> rfl
  | _ => rfl

theorem length_render_pos (v : Json) : 0 < (render v).length := by
  refine List.length_pos_iff.2 fun h => ?_
  have hopens := opens_render v []
  rw [h] at hopens
  cases hopens

/-! One step of the reader, given what it reads inside. -/

theorem readValue_of_startsNumber {l : List Char} (h : startsNumber l = true) (n : ℕ) :
    readValue (n + 1) l = readNumber l := by
  rw [readValue]
  simp only [skip_of_opens (opens_of_startsNumber h), h, if_true]

theorem readValue_quote (n : ℕ) (s rest : List Char) :
    readValue (n + 1) (quote s ++ rest) = some (str s, rest) := by
  have htext : quote s ++ rest = '"' :: (s.flatMap escape ++ '"' :: rest) := by
    simp [quote]
  rw [htext]
  show (readString _ _).map _ = _
  rw [readString_length]
  rfl

theorem readValue_bracket {l : List Char} (h : opens l = true) (n : ℕ) :
    readValue (n + 1) ('[' :: l) = (readElements n l).map fun p => (arr p.1, p.2) := by
  have hclose : ¬ l.head? = some ']' := by
    intro hl
    rw [opens, hl] at h
    cases h
  show (if (skip l).head? = some ']' then _ else _) = _
  rw [skip_of_opens h, if_neg hclose]

theorem readElements_comma {n : ℕ} {l l' : List Char} {v : Json}
    (h : readValue n l = some (v, ',' :: l')) :
    readElements (n + 1) l = (readElements n l').map fun p => (v :: p.1, p.2) := by
  rw [readElements, h]
  rfl

theorem readElements_close {n : ℕ} {l l' : List Char} {v : Json}
    (h : readValue n l = some (v, ']' :: l')) : readElements (n + 1) l = some ([v], l') := by
  rw [readElements, h]
  rfl

theorem readKey_quote (k l : List Char) : readKey (quote k ++ ':' :: l) = some (k, l) := by
  have htext : quote k ++ ':' :: l = '"' :: (k.flatMap escape ++ '"' :: (':' :: l)) := by
    simp [quote]
  rw [htext]
  show (readString _ _).bind _ = _
  rw [readString_length]
  rfl

theorem readMembers_comma (k : List Char) {n : ℕ} {l l' : List Char} {v : Json}
    (h : readValue n l = some (v, ',' :: l')) :
    readMembers (n + 1) (quote k ++ ':' :: l) = (readMembers n l').map fun p => ((k, v) :: p.1, p.2) := by
  rw [readMembers, readKey_quote]
  show (readValue n l).bind _ = _
  rw [h]
  rfl

theorem readMembers_close (k : List Char) {n : ℕ} {l l' : List Char} {v : Json}
    (h : readValue n l = some (v, '}' :: l')) :
    readMembers (n + 1) (quote k ++ ':' :: l) = some ([(k, v)], l') := by
  rw [readMembers, readKey_quote]
  show (readValue n l).bind _ = _
  rw [h]
  rfl

mutual

/-- A value is read from its text, up to what cannot go on with it.  Every character of the text gives
enough fuel for the step that reads it. -/
theorem readValue_render : ∀ (v : Json) (rest : List Char) (n : ℕ), integral v = true →
    (render v).length ≤ n → stops rest = true → readValue n (render v ++ rest) = some (v, rest)
  | v, rest, 0, _, hn, _ => absurd (length_render_pos v) (not_lt.2 hn)
  | null, rest, n + 1, _, _, _ => rfl
  | bool true, rest, n + 1, _, _, _ => rfl
  | bool false, rest, n + 1, _, _, _ => rfl
  | num negative whole tail, rest, n + 1, hv, _, hrest => by
    obtain rfl : tail = [] := List.isEmpty_iff.1 hv
    exact (readValue_of_startsNumber (startsNumber_render negative whole [] rest) n).trans
      (readNumber_render negative whole hrest)
  | str s, rest, n + 1, _, _, _ => readValue_quote n s rest
  | arr [], rest, n + 1, _, _, _ => rfl
  | arr (v :: vs), rest, n + 1, hv, hn, _ => by
    have htext : render (arr (v :: vs)) ++ rest = '[' :: (renderElements (v :: vs) ++ ']' :: rest) := by
      simp [render]
    have hopens : opens (renderElements (v :: vs) ++ ']' :: rest) = true := by
      rw [renderElements, List.append_assoc]
      exact opens_render v _
    have hlen : (renderElements (v :: vs)).length < n := by
      simp only [render, List.length_cons, List.length_append] at hn
      omega
    rw [htext, readValue_bracket hopens, readElements_render v vs rest n hv hlen]
    rfl
  | obj [], rest, n + 1, _, _, _ => rfl
  | obj ((k, v) :: ms), rest, n + 1, hv, hn, _ => by
    have htext : render (obj ((k, v) :: ms)) ++ rest =
        '{' :: (renderMembers ((k, v) :: ms) ++ '}' :: rest) := by
      simp [render]
    have hlen : (renderMembers ((k, v) :: ms)).length < n := by
      simp only [render, List.length_cons, List.length_append] at hn
      omega
    rw [htext]
    show (readMembers n _).map _ = _
    rw [readMembers_render k v ms rest n hv hlen]
    rfl

theorem readElements_render : ∀ (v : Json) (vs : List Json) (rest : List Char) (n : ℕ),
    integralElements (v :: vs) = true → (renderElements (v :: vs)).length < n →
    readElements n (renderElements (v :: vs) ++ ']' :: rest) = some (v :: vs, rest)
  | v, vs, rest, 0, _, hn => absurd hn (Nat.not_lt_zero _)
  | v, [], rest, n + 1, hv, hn => by
    obtain ⟨hv, -⟩ := Bool.and_eq_true_iff.1 hv
    rw [renderElements, renderMoreElements, List.append_nil] at hn ⊢
    exact readElements_close (readValue_render v (']' :: rest) n hv (Nat.le_of_lt_succ hn) rfl)
  | v, w :: vs, rest, n + 1, hv, hn => by
    obtain ⟨hv, hvs⟩ := Bool.and_eq_true_iff.1 hv
    have htext : renderElements (v :: w :: vs) ++ ']' :: rest =
        render v ++ ',' :: (renderElements (w :: vs) ++ ']' :: rest) := by
      simp [renderElements, renderMoreElements]
    have hlen : (renderElements (v :: w :: vs)).length =
        (render v).length + (renderElements (w :: vs)).length + 1 := by
      simp [renderElements, renderMoreElements]
      omega
    rw [htext, readElements_comma (readValue_render v _ n hv (by omega) rfl),
      readElements_render w vs rest n hvs (by omega)]
    rfl

theorem readMembers_render : ∀ (k : List Char) (v : Json) (ms : List (List Char × Json))
    (rest : List Char) (n : ℕ), integralMembers ((k, v) :: ms) = true →
    (renderMembers ((k, v) :: ms)).length < n →
    readMembers n (renderMembers ((k, v) :: ms) ++ '}' :: rest) = some ((k, v) :: ms, rest)
  | k, v, ms, rest, 0, _, hn => absurd hn (Nat.not_lt_zero _)
  | k, v, [], rest, n + 1, hv, hn => by
    obtain ⟨hv, -⟩ := Bool.and_eq_true_iff.1 hv
    have htext : renderMembers [(k, v)] ++ '}' :: rest = quote k ++ ':' :: (render v ++ '}' :: rest) := by
      simp [renderMembers, renderMoreMembers]
    have hlen : (render v).length ≤ (renderMembers [(k, v)]).length := by
      simp [renderMembers, renderMoreMembers]
      omega
    rw [htext]
    exact readMembers_close k (readValue_render v ('}' :: rest) n hv (by omega) rfl)
  | k, v, (k', w) :: ms, rest, n + 1, hv, hn => by
    obtain ⟨hv, hms⟩ := Bool.and_eq_true_iff.1 hv
    have htext : renderMembers ((k, v) :: (k', w) :: ms) ++ '}' :: rest =
        quote k ++ ':' :: (render v ++ ',' :: (renderMembers ((k', w) :: ms) ++ '}' :: rest)) := by
      simp [renderMembers, renderMoreMembers]
    have hlen : (render v).length + (renderMembers ((k', w) :: ms)).length + 1 ≤
        (renderMembers ((k, v) :: (k', w) :: ms)).length := by
      simp [renderMembers, renderMoreMembers]
      omega
    rw [htext, readMembers_comma k (readValue_render v _ n hv (by omega) rfl),
      readMembers_render k' w ms rest n hms (by omega)]
    rfl

end

/-- The reader inverts the writer. -/
theorem parse_render (v : Json) (hv : integral v = true) : parse (render v) = some v := by
  have hread := readValue_render v [] ((render v).length + 1) hv (Nat.le_succ _) rfl
  rw [List.append_nil] at hread
  simp only [parse, hread, Option.bind_eq_bind, Option.bind_some]
  rfl

end Json

end Land
