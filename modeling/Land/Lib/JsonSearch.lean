import Land.Lib.Json
import Land.Lib.Scan

/-!
# Searching a JSON text for a member

A program can look for `"name":` in a JSON text without reading the text.  It then finds the first member with
that name in the order of the text, at any depth (`finds_render`).  A quote inside a string is escaped, so a
string value is never taken for a member, whatever it says; a name could be, if it ended in a quote and the name
that is looked for.
-/

namespace Land.Json

open Scan (after)

/-- What is looked for. -/
def key (name : List Char) : List Char := '"' :: (name ++ ['"', ':'])

/-- A name made of letters. -/
def isWord (name : List Char) : Bool := !name.isEmpty && name.all Char.isAlpha

mutual

/-- The members of a value and of the values in it, in the order of the text. -/
def members : Json → List (List Char × Json)
  | arr vs => membersOfElements vs
  | obj ms => membersOfMembers ms
  | _ => []

/-- The same for the elements of an array. -/
def membersOfElements : List Json → List (List Char × Json)
  | [] => []
  | v :: vs => members v ++ membersOfElements vs

/-- The same for the members of an object. -/
def membersOfMembers : List (List Char × Json) → List (List Char × Json)
  | [] => []
  | (k, v) :: ms => (k, v) :: (members v ++ membersOfMembers ms)

end

/-- The texts that can come after a value. -/
def follows (l : List Char) : Bool := l.head?.all fun c => c = ',' || c = ']' || c = '}'

/-- The search in `text` finds the first of the members with the name, or else goes on to `rest`. -/
def Finds (name : List Char) (ms : List (List Char × Json)) (text rest : List Char) : Prop :=
  match ms.lookup name with
  | some v => ∃ back, follows back = true ∧ after (key name) text = some (render v ++ back)
  | none => after (key name) text = after (key name) rest

/-! ## Strings and names -/

/-- A character is written as it is, or after a backslash. -/
theorem escape_cases (c : Char) :
    (escape c = [c] ∧ c ≠ '"') ∨ (c = '"' ∧ escape c = ['\\', '"']) ∨
      (c ≠ '"' ∧ ∃ l, escape c = '\\' :: l ∧ '"' ∉ l) := by
  by_cases hquote : c = '"'
  · subst hquote
    exact .inr (.inl ⟨rfl, rfl⟩)
  · cases hshort : shortEscape c with
    | some e =>
      have he : escape c = ['\\', e] := by rw [escape, hshort]
      refine .inr (.inr ⟨hquote, [e], he, fun hmem => hquote ?_⟩)
      obtain rfl := List.mem_singleton.1 hmem
      exact (Option.some.inj (unescape_shortEscape hshort).1).symm
    | none =>
      rw [escape, hshort]
      by_cases hctrl : c.toNat < 32
      · refine .inr (.inr ⟨hquote, _, if_pos hctrl, ?_⟩)
        have hdigit : ∀ n < 16, Nat.digitChar n ≠ '"' := by decide
        have h1 := hdigit (c.toNat / 16) (by omega)
        have h2 := hdigit (c.toNat % 16) (by omega)
        simp only [List.mem_cons, List.not_mem_nil, or_false, not_or]
        exact ⟨by decide, by decide, by decide, h1.symm, h2.symm⟩
      · exact .inl ⟨if_neg hctrl, hquote⟩

section Search

variable {name : List Char}

theorem isWord_mem (hword : isWord name = true) {c : Char} (hc : c ∈ name) : c.isAlpha = true :=
  List.all_eq_true.1 (Bool.and_eq_true_iff.1 hword).2 c hc

theorem key_ne_nil : key name ≠ [] := List.cons_ne_nil _ _

theorem after_key_skip {front : List Char} (h : '"' ∉ front) (l : List Char) :
    after (key name) (front ++ l) = after (key name) l :=
  Scan.after_append_of_not_mem h l

theorem after_key_cons {c : Char} (h : c ≠ '"') (l : List Char) :
    after (key name) (c :: l) = after (key name) l :=
  after_key_skip (fun hmem => h (List.mem_singleton.1 hmem).symm) l

/-- The characters of a string up to its closing quote are those of the name only if the string is the name. -/
theorem eq_of_name_prefix (hname : ∀ c ∈ name, c.isAlpha = true) {s rest : List Char}
    (h : name ++ ['"', ':'] <+: s.flatMap escape ++ '"' :: rest) : s = name ∧ rest.head? = some ':' := by
  induction name generalizing s with
  | nil =>
    cases s with
    | nil =>
      obtain ⟨tail, htail⟩ := (List.cons_prefix_cons.1 h).2
      rw [← htail]
      exact ⟨rfl, rfl⟩
    | cons c s =>
      -- the text of a character does not start with a quote
      obtain ⟨tail, htail⟩ := h
      rw [List.flatMap_cons, List.append_assoc (escape c)] at htail
      refine absurd ?_ (head_escape_ne_quote c (s.flatMap escape ++ '"' :: rest))
      rw [← htail]
      rfl
  | cons a name ih =>
    have ha := hname a List.mem_cons_self
    cases s with
    | nil =>
      obtain rfl := (List.cons_prefix_cons.1 h).1
      cases ha
    | cons c s =>
      rw [List.flatMap_cons, List.append_assoc, List.cons_append] at h
      obtain ⟨hc, -⟩ | ⟨rfl, hc⟩ | ⟨-, l, hc, -⟩ := escape_cases c
      · rw [hc] at h
        obtain ⟨rfl, htail⟩ := List.cons_prefix_cons.1 h
        obtain ⟨rfl, hrest⟩ := ih (fun d hd => hname d (List.mem_cons_of_mem a hd)) htail
        exact ⟨rfl, hrest⟩
      · rw [hc] at h
        obtain rfl := (List.cons_prefix_cons.1 h).1
        cases ha
      · rw [hc] at h
        obtain rfl := (List.cons_prefix_cons.1 h).1
        cases ha

theorem after_key_quote (hword : isWord name = true) {rest : List Char}
    (hrest : ∀ c ∈ rest.head?, c.isAlpha = false) :
    after (key name) ('"' :: rest) = after (key name) rest := by
  refine Scan.after_cons_skip fun hp => ?_
  have hname := (List.cons_prefix_cons.1 hp).2
  cases name with
  | nil => cases hword
  | cons a name =>
    obtain ⟨tail, htail⟩ := hname
    have hno := hrest a (by rw [← htail]; rfl)
    rw [isWord_mem hword List.mem_cons_self] at hno
    cases hno

/-- The inside of a string and its closing quote are passed: a quote that it has inside is followed by what is
not the name and a colon. -/
theorem after_key_inside (hword : isWord name = true) {s rest : List Char}
    (hrest : ∀ c ∈ rest.head?, c.isAlpha = false) (hcolon : rest.head? = some ':' → '"' ∉ s) :
    after (key name) (s.flatMap escape ++ '"' :: rest) = after (key name) rest := by
  induction s with
  | nil => exact after_key_quote hword hrest
  | cons c s ih =>
    have ih := ih fun h hmem => hcolon h (List.mem_cons_of_mem c hmem)
    rw [List.flatMap_cons, List.append_assoc]
    obtain ⟨hc, hquote⟩ | ⟨rfl, hc⟩ | ⟨-, l, hc, hl⟩ := escape_cases c
    · rw [hc, List.singleton_append, after_key_cons hquote, ih]
    · rw [hc]
      show after (key name) (['\\'] ++ '"' :: (s.flatMap escape ++ '"' :: rest)) = _
      rw [after_key_skip (by decide), Scan.after_cons_skip fun hp => ?_, ih]
      -- the escaped quote would have to be followed by the name, the closing quote and a colon
      obtain ⟨-, hhead⟩ := eq_of_name_prefix (fun d => isWord_mem hword) (List.cons_prefix_cons.1 hp).2
      exact hcolon hhead List.mem_cons_self
    · have hskip : '"' ∉ '\\' :: l := by
        rw [List.mem_cons, not_or]
        exact ⟨by decide, hl⟩
      rw [hc, after_key_skip hskip, ih]

/-- The text of a string or a name that is not the one looked for. -/
theorem after_key_string (hword : isWord name = true) {s rest : List Char}
    (hrest : ∀ c ∈ rest.head?, c.isAlpha = false) (hcolon : rest.head? = some ':' → '"' ∉ s ∧ s ≠ name) :
    after (key name) (quote s ++ rest) = after (key name) rest := by
  have htext : quote s ++ rest = '"' :: (s.flatMap escape ++ '"' :: rest) := by
    simp only [quote, List.cons_append, List.append_assoc, List.nil_append]
  rw [htext, Scan.after_cons_skip fun hp => ?_, after_key_inside hword hrest fun h => (hcolon h).1]
  obtain ⟨rfl, hhead⟩ := eq_of_name_prefix (fun d => isWord_mem hword) (List.cons_prefix_cons.1 hp).2
  exact (hcolon hhead).2 rfl

theorem head_not_isAlpha {l : List Char} (h : follows l = true) : ∀ c ∈ l.head?, c.isAlpha = false := by
  intro c hc
  rw [follows, hc] at h
  simp only [Option.all_some, Bool.or_eq_true, decide_eq_true_eq] at h
  rcases h with (rfl | rfl) | rfl <;> rfl

theorem head_ne_colon {l : List Char} (h : follows l = true) : l.head? ≠ some ':' := by
  intro hc
  rw [follows, hc] at h
  cases h

/-- The text of the name itself. -/
theorem after_key_name (hword : isWord name = true) (l : List Char) :
    after (key name) (quote name ++ ':' :: l) = some l := by
  have hplain : name.flatMap escape = name := by
    refine flatMap_escape fun c hc => ?_
    have hc := isWord_mem hword hc
    refine ⟨?_, (by rintro rfl; cases hc), (by rintro rfl; cases hc)⟩
    obtain hc | hc : c.isUpper = true ∨ c.isLower = true := Bool.or_eq_true_iff.1 hc
    · have hge : 'A'.val ≤ c.val := (of_decide_eq_true hc).1
      exact le_trans (by decide) (UInt32.le_iff_toNat_le.1 hge)
    · have hge : 'a'.val ≤ c.val := of_decide_eq_true (Bool.and_eq_true_iff.1 hc).1
      exact le_trans (by decide) (UInt32.le_iff_toNat_le.1 hge)
  have htext : quote name ++ ':' :: l = key name ++ l := by
    simp only [quote, hplain, key, List.cons_append, List.append_assoc, List.nil_append]
  rw [htext, Scan.after_append_self key_ne_nil]

/-! ## Values -/

variable {ms ms' : List (List Char × Json)} {text mid rest : List Char}

theorem finds_nil (h : after (key name) text = after (key name) rest) : Finds name [] text rest := h

/-- The part of the text before the search takes hold. -/
theorem Finds.of_after (h : Finds name ms mid rest) (heq : after (key name) text = after (key name) mid) :
    Finds name ms text rest := by
  unfold Finds at h ⊢
  rwa [heq]

theorem Finds.skip {c : Char} (h : Finds name ms text rest) (hc : c ≠ '"') :
    Finds name ms (c :: text) rest :=
  h.of_after (after_key_cons hc text)

theorem Finds.append (h : Finds name ms text mid) (h' : Finds name ms' mid rest) :
    Finds name (ms ++ ms') text rest := by
  unfold Finds at h h' ⊢
  rw [List.lookup_append]
  cases hfound : ms.lookup name with
  | some v =>
    rw [hfound] at h
    exact h
  | none =>
    rw [hfound] at h
    simp only [Option.none_or, h]
    exact h'

/-- A member: it is found, or its name is passed. -/
theorem Finds.member (hword : isWord name = true) {k : List Char} {v : Json} (hk : '"' ∉ k)
    (hfollows : follows rest = true) {last : List Char} (h : Finds name ms (render v ++ rest) last) :
    Finds name ((k, v) :: ms) (quote k ++ ':' :: (render v ++ rest)) last := by
  by_cases heq : name = k
  · subst heq
    unfold Finds
    rw [List.lookup_cons_self]
    exact ⟨rest, hfollows, after_key_name hword _⟩
  · have hafter : after (key name) (quote k ++ ':' :: (render v ++ rest)) =
        after (key name) (render v ++ rest) := by
      rw [after_key_string hword (by rintro c ⟨⟩; rfl) fun _ => ⟨hk, fun e => heq e.symm⟩]
      exact after_key_cons (by decide) _
    have h := h.of_after hafter
    unfold Finds at h ⊢
    rwa [List.lookup_cons, beq_eq_false_iff_ne.2 heq]

theorem quote_not_mem_renderNumber (negative : Bool) (n : ℕ) : '"' ∉ renderNumber negative n [] := by
  intro hmem
  rw [renderNumber, List.append_nil] at hmem
  rcases List.mem_append.1 hmem with hmem | hmem
  · cases negative with
    | true => exact absurd (List.mem_singleton.1 hmem) (by decide)
    | false => cases hmem
  · have hdigit : ('"' : Char).isDigit = true := Nat.isDigit_of_mem_toDigits (by decide) (by decide) hmem
    cases hdigit

theorem follows_moreElements (vs : List Json) (rest : List Char) :
    follows (renderMoreElements vs ++ ']' :: rest) = true := by
  cases vs <;> simp [renderMoreElements, follows]

theorem follows_moreMembers (ms : List (List Char × Json)) (rest : List Char) :
    follows (renderMoreMembers ms ++ '}' :: rest) = true := by
  cases ms with
  | nil => simp [renderMoreMembers, follows]
  | cons m ms => simp [renderMoreMembers, follows]

mutual

/-- In the text of a value, the search for a name finds the first member with it, and goes on behind the text if
there is none. -/
theorem finds_render (hword : isWord name = true) : ∀ (v : Json) {rest : List Char}, integral v = true →
    (∀ m ∈ members v, '"' ∉ m.1) → follows rest = true → Finds name (members v) (render v ++ rest) rest
  | null, _, _, _, _ => finds_nil (after_key_skip (by decide) _)
  | bool true, _, _, _, _ => finds_nil (after_key_skip (by decide) _)
  | bool false, _, _, _, _ => finds_nil (after_key_skip (by decide) _)
  | num negative whole tail, _, hv, _, _ => by
    obtain rfl : tail = [] := List.isEmpty_iff.1 hv
    exact finds_nil (after_key_skip (quote_not_mem_renderNumber negative whole) _)
  | str s, _, _, _, hrest =>
    finds_nil (after_key_string hword (head_not_isAlpha hrest) fun h => absurd h (head_ne_colon hrest))
  | arr [], _, _, _, _ => finds_nil (after_key_skip (by decide) _)
  | arr (v :: vs), rest, hv, hnames, _ => by
    obtain ⟨hv, hvs⟩ := Bool.and_eq_true_iff.1 hv
    have htext : render (arr (v :: vs)) ++ rest =
        '[' :: (render v ++ (renderMoreElements vs ++ ']' :: rest)) := by
      simp [render, renderElements]
    rw [htext]
    refine Finds.skip (Finds.append (finds_render hword v hv (fun m hm => hnames m (List.mem_append_left _ hm))
      (follows_moreElements vs rest)) ?_) (by decide)
    exact finds_moreElements hword vs hvs fun m hm => hnames m (List.mem_append_right _ hm)
  | obj [], _, _, _, _ => finds_nil (after_key_skip (by decide) _)
  | obj ((k, v) :: ms), rest, hv, hnames, _ => by
    obtain ⟨hv, hms⟩ := Bool.and_eq_true_iff.1 hv
    have htext : render (obj ((k, v) :: ms)) ++ rest =
        '{' :: (quote k ++ ':' :: (render v ++ (renderMoreMembers ms ++ '}' :: rest))) := by
      simp [render, renderMembers]
    rw [htext]
    have hin : ∀ m ∈ members v, '"' ∉ m.1 := fun m hm =>
      hnames m (List.mem_cons_of_mem _ (List.mem_append_left _ hm))
    refine Finds.skip (Finds.member hword (hnames (k, v) List.mem_cons_self) (follows_moreMembers ms rest)
      (Finds.append (finds_render hword v hv hin (follows_moreMembers ms rest)) ?_)) (by decide)
    exact finds_moreMembers hword ms hms fun m hm =>
      hnames m (List.mem_cons_of_mem _ (List.mem_append_right _ hm))

theorem finds_moreElements (hword : isWord name = true) : ∀ (vs : List Json) {rest : List Char},
    integralElements vs = true → (∀ m ∈ membersOfElements vs, '"' ∉ m.1) →
    Finds name (membersOfElements vs) (renderMoreElements vs ++ ']' :: rest) rest
  | [], rest, _, _ => finds_nil (after_key_cons (by decide) rest)
  | v :: vs, rest, hv, hnames => by
    obtain ⟨hv, hvs⟩ := Bool.and_eq_true_iff.1 hv
    have htext : renderMoreElements (v :: vs) ++ ']' :: rest =
        ',' :: (render v ++ (renderMoreElements vs ++ ']' :: rest)) := by
      simp [renderMoreElements]
    rw [htext]
    refine Finds.skip (Finds.append (finds_render hword v hv (fun m hm => hnames m (List.mem_append_left _ hm))
      (follows_moreElements vs rest)) ?_) (by decide)
    exact finds_moreElements hword vs hvs fun m hm => hnames m (List.mem_append_right _ hm)

theorem finds_moreMembers (hword : isWord name = true) : ∀ (ms : List (List Char × Json)) {rest : List Char},
    integralMembers ms = true → (∀ m ∈ membersOfMembers ms, '"' ∉ m.1) →
    Finds name (membersOfMembers ms) (renderMoreMembers ms ++ '}' :: rest) rest
  | [], rest, _, _ => finds_nil (after_key_cons (by decide) rest)
  | (k, v) :: ms, rest, hv, hnames => by
    obtain ⟨hv, hms⟩ := Bool.and_eq_true_iff.1 hv
    have htext : renderMoreMembers ((k, v) :: ms) ++ '}' :: rest =
        ',' :: (quote k ++ ':' :: (render v ++ (renderMoreMembers ms ++ '}' :: rest))) := by
      simp [renderMoreMembers]
    rw [htext]
    have hin : ∀ m ∈ members v, '"' ∉ m.1 := fun m hm =>
      hnames m (List.mem_cons_of_mem _ (List.mem_append_left _ hm))
    refine Finds.skip (Finds.member hword (hnames (k, v) List.mem_cons_self) (follows_moreMembers ms rest)
      (Finds.append (finds_render hword v hv hin (follows_moreMembers ms rest)) ?_)) (by decide)
    exact finds_moreMembers hword ms hms fun m hm =>
      hnames m (List.mem_cons_of_mem _ (List.mem_append_right _ hm))

end

end Search

/-! ## Values inside a value -/

/-- The numbers of the value are integers, and no name in it has a quote. -/
structure Plain (v : Json) : Prop where
  integral : integral v = true
  names : ∀ m ∈ members v, '"' ∉ m.1

mutual

theorem inside_of_mem : ∀ (v : Json) {k : List Char} {u : Json}, integral v = true → (k, u) ∈ members v →
    integral u = true ∧ members u ⊆ members v
  | arr vs, _, _, hv, hmem => inside_of_mem_elements vs hv hmem
  | obj ms, _, _, hv, hmem => inside_of_mem_members ms hv hmem

theorem inside_of_mem_elements : ∀ (vs : List Json) {k : List Char} {u : Json}, integralElements vs = true →
    (k, u) ∈ membersOfElements vs → integral u = true ∧ members u ⊆ membersOfElements vs
  | v :: vs, _, _, hv, hmem => by
    obtain ⟨hv, hvs⟩ := Bool.and_eq_true_iff.1 hv
    rcases List.mem_append.1 hmem with hmem | hmem
    · obtain ⟨hu, hsub⟩ := inside_of_mem v hv hmem
      exact ⟨hu, List.Subset.trans hsub (List.subset_append_left _ _)⟩
    · obtain ⟨hu, hsub⟩ := inside_of_mem_elements vs hvs hmem
      exact ⟨hu, List.Subset.trans hsub (List.subset_append_right _ _)⟩

theorem inside_of_mem_members : ∀ (ms : List (List Char × Json)) {k : List Char} {u : Json},
    integralMembers ms = true → (k, u) ∈ membersOfMembers ms →
      integral u = true ∧ members u ⊆ membersOfMembers ms
  | (k', v) :: ms, _, _, hv, hmem => by
    obtain ⟨hv, hms⟩ := Bool.and_eq_true_iff.1 hv
    have hin {l : List (List Char × Json)} (h : l ⊆ members v ++ membersOfMembers ms) :
        l ⊆ membersOfMembers ((k', v) :: ms) := List.subset_cons_of_subset _ h
    rcases List.mem_cons.1 hmem with heq | hmem
    · obtain ⟨-, rfl⟩ := Prod.mk.inj heq
      exact ⟨hv, hin (List.subset_append_left _ _)⟩
    rcases List.mem_append.1 hmem with hmem | hmem
    · obtain ⟨hu, hsub⟩ := inside_of_mem v hv hmem
      exact ⟨hu, hin (List.Subset.trans hsub (List.subset_append_left _ _))⟩
    · obtain ⟨hu, hsub⟩ := inside_of_mem_members ms hms hmem
      exact ⟨hu, hin (List.Subset.trans hsub (List.subset_append_right _ _))⟩

end

/-- The value that a name is found at. -/
theorem Plain.of_lookup {v u : Json} (h : Plain v) {name : List Char} (hu : (members v).lookup name = some u) :
    Plain u := by
  obtain ⟨front, back, heq, -⟩ := List.lookup_eq_some_iff.1 hu
  obtain ⟨hint, hsub⟩ := inside_of_mem v h.integral (heq ▸ List.mem_append_right _ List.mem_cons_self)
  exact ⟨hint, fun m hm => h.names m (hsub hm)⟩

/-- The text after the name is the text of the value, and what can come after it. -/
theorem Plain.after_key {v u : Json} (h : Plain v) {name : List Char} (hword : isWord name = true)
    (hu : (members v).lookup name = some u) {rest : List Char} (hrest : follows rest = true) :
    ∃ back, follows back = true ∧ after (key name) (render v ++ rest) = some (render u ++ back) := by
  have hfinds := finds_render hword v h.integral h.names hrest
  unfold Finds at hfinds
  rwa [hu] at hfinds

end Land.Json
