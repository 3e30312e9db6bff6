import Easel.Json.Printer
import Easel.Json.Reader
import Easel.Proofs.LineReading

/-!
# Reading what is written in JSON

A value in which every number is a plain whole number, and every text is whole, is read
from its own characters again. Each part of it is read off the front of a longer text,
whatever follows: a text literal character by character, a number up to what cannot
belong to it, an array or an object by induction over its items or fields. The reader
spends at most two units of fuel for a character, and it starts with that many.

Main statement: `read?_compact`, the text of such a value is read as the value.
-/

namespace Easel.Json

/-! ## Text literals -/

/-- A hexadecimal digit is read as what it was written for. -/
theorem hexValue?_hexDigit : ∀ n < 16, hexValue? (hexDigit n) = some n := by
  decide

/-- A character below the space is one unit of sixteen bits. -/
theorem hexUnit?_hexDigit {n : Nat} (hn : n < 0x20) :
    hexUnit? '0' '0' (hexDigit (n / 16)) (hexDigit (n % 16)) = some n := by
  have hzero : hexValue? '0' = some 0 := hexValue?_hexDigit 0 (by decide)
  have hhigh := hexValue?_hexDigit (n / 16) (by omega)
  have hlow := hexValue?_hexDigit (n % 16) (Nat.mod_lt _ (by decide))
  unfold hexUnit?
  rw [hzero, hhigh, hlow]
  show some (((0 * 16 + 0) * 16 + n / 16) * 16 + n % 16) = some n
  exact congrArg some (by omega)

/-- A character below the space is read from its number in four digits. -/
theorem literal_control (done : List Char) {c : Char} (hc : c.toNat < 0x20) (rest : List Char) :
    literal { read := done }
        ('\\' :: 'u' :: '0' :: '0' :: hexDigit (c.toNat / 16) :: hexDigit (c.toNat % 16) :: rest) =
      literal { read := c :: done } rest := by
  have hunit : Passage.pushUnit { read := done } c.toNat = { read := c :: done } := by
    unfold Passage.pushUnit
    rw [if_neg (by omega), if_neg (by omega), Char.ofNat_toNat]
    rfl
  rw [literal, hexUnit?_hexDigit hc]
  exact congrArg (literal · rest) hunit

/-- A character that needs no escape stands for itself. -/
theorem literal_plain (done : List Char) {c : Char} (hc : ¬ c.toNat < 0x20) (hquote : c ≠ '"')
    (hslash : c ≠ '\\') (rest : List Char) :
    literal { read := done } (c :: rest) = literal { read := c :: done } rest := by
  rw [literal, if_neg hc]
  · rfl
  · exact hquote
  · exact fun _ _ _ _ _ h => absurd h hslash
  · exact fun _ _ h => absurd h hslash

/-- A character is read from the way in which it stands in a literal. -/
theorem literal_escape (done : List Char) (c : Char) (rest : List Char) :
    literal { read := done } (escape c ++ rest) = literal { read := c :: done } rest := by
  unfold escape
  split
  case h_8 hquote hslash _ _ _ _ _ =>
    split
    next hc => exact literal_control done hc rest
    next hc => exact literal_plain done hc hquote hslash rest
  all_goals rfl

/-- Characters are read one by one up to the closing mark, whatever was read before them. -/
theorem literal_escaped (done cs rest : List Char) :
    literal { read := done } (cs.flatMap escape ++ '"' :: rest) =
      some (some (String.ofList (done.reverse ++ cs)), rest) := by
  induction cs generalizing done with
  | nil => simp [literal, Passage.text?]
  | cons c cs ih => simp [List.flatMap_cons, literal_escape, ih]

/-- The text of a literal, after its first quotation mark. -/
theorem literal_quoted (s : String) (rest : List Char) :
    literal {} (s.toList.flatMap escape ++ '"' :: rest) = some (some s, rest) := by
  rw [literal_escaped, List.reverse_nil, List.nil_append, String.ofList_toList]

/-- What follows a text follows its closing mark. -/
theorem quote_append (s : String) (rest : List Char) :
    quote s ++ rest = '"' :: (s.toList.flatMap escape ++ '"' :: rest) := by
  rw [quote, List.cons_append, List.cons_append, List.append_assoc]
  rfl

/-! ## Numbers -/

/-- The text goes on with nothing that could belong to a number. -/
def EndsNumber (rest : List Char) : Prop :=
  Scan.Stops (fun c => c.isDigit || c = '.' || c = 'e' || c = 'E') rest

/-- A number inside an array or an object ends where the next item, field or bracket begins. -/
theorem endsNumber_cons {c : Char} (hc : c = ',' ∨ c = ']' ∨ c = '}') (rest : List Char) :
    EndsNumber (c :: rest) := by
  refine Scan.stops_cons.2 ?_
  rcases hc with rfl | rfl | rfl <;> decide

theorem EndsNumber.stops_digits {rest : List Char} (h : EndsNumber rest) :
    Scan.Stops Char.isDigit rest := by
  intro c hc hdigit
  exact h c hc (by simp [hdigit])

/-- Where a number ends there is no point. -/
theorem fractionIn_of_ends {rest : List Char} (h : EndsNumber rest) :
    fractionIn rest = some (none, rest) := by
  unfold fractionIn
  split
  next => exact absurd h (by simp [EndsNumber])
  next => rfl

/-- Where a number ends there is no exponent. -/
theorem exponentIn_of_ends {rest : List Char} (h : EndsNumber rest) :
    exponentIn rest = some (none, rest) := by
  unfold exponentIn
  split
  next c rest =>
    have hletter : ¬ (c = 'e' ∨ c = 'E') := by
      intro hc
      exact Scan.stops_cons.1 h (by rcases hc with rfl | rfl <;> rfl)
    rw [if_neg hletter]
  next => rfl

/-- All digits are taken up to the end of the number; a zero is taken alone, and no other digit
can follow it. -/
theorem wholeIn_numeral {ds rest : List Char} (hds : IsNumeral ds)
    (h : Scan.Stops Char.isDigit rest) : wholeIn (ds ++ rest) = some (ds, rest) := by
  obtain ⟨htake, hdrop⟩ := Scan.span_iff.2 ⟨rfl, hds.digits, h⟩
  unfold wholeIn
  split
  next cs hcs =>
    obtain ⟨rfl, rfl, -⟩ := Scan.zero_cons_iff.1 ⟨hcs.symm, hds, h⟩
    split
    next c rest => rw [if_neg (Scan.stops_cons.1 h)]
    next => rfl
  next =>
    unfold digitsIn
    rw [← htake, hdrop]
    cases ds with
    | nil => exact absurd rfl hds.ne_nil
    | cons d ds => rfl

/-- A whole number is read from its digits. -/
theorem number_digits (n : Nat) {rest : List Char} (h : EndsNumber rest) :
    number (digits n ++ rest) = some (natural n, rest) := by
  have hnum : IsNumeral (digits n) := isNumeral_toDigits n
  have hsign : ∀ cs, digits n ++ rest ≠ '-' :: cs := by
    intro cs hcs
    obtain ⟨d, ds, hds⟩ := List.exists_cons_of_ne_nil hnum.ne_nil
    rw [hds, List.cons_append, List.cons.injEq] at hcs
    have hd := hnum.digits d (by rw [hds]; exact List.mem_cons_self)
    rw [hcs.1] at hd
    exact absurd hd (by decide)
  unfold number
  split
  rename_i negative cs heq
  split at heq
  next hcs => exact absurd hcs (hsign _)
  next =>
    cases heq
    have hvalue : Nat.ofDigitChars 10 (digits n) 0 = n := Nat.ofDigitChars_ten_toDigits
    simp [wholeIn_numeral hnum h.stops_digits, fractionIn_of_ends h, exponentIn_of_ends h, hvalue]

/-! ## Values -/

/-- The value itself, without what is in it, is neither a number with a sign, a point or an
exponent nor garbled. -/
def plain : Json → Bool
  | decimal .. | garbled => false
  | _ => true

/-- The text begins with something other than a blank or the end of an array. -/
def BeginsValue (cs : List Char) : Prop :=
  ∃ c ds, cs = c :: ds ∧ c ∉ [' ', '\n', '\t', '\r', ']']

theorem beginsValue_cons {c : Char} (hc : c ∉ [' ', '\n', '\t', '\r', ']']) (ds : List Char) :
    BeginsValue (c :: ds) :=
  ⟨c, ds, rfl, hc⟩

theorem BeginsValue.append {cs : List Char} (h : BeginsValue cs) (ds : List Char) :
    BeginsValue (cs ++ ds) := by
  obtain ⟨c, rest, rfl, hc⟩ := h
  exact beginsValue_cons hc (rest ++ ds)

/-- There is no blank to skip where a value begins. -/
theorem skipBlanks_of_begins {cs : List Char} (h : BeginsValue cs) : skipBlanks cs = cs := by
  obtain ⟨c, ds, rfl, hc⟩ := h
  refine List.dropWhile_cons_of_neg ?_
  simp only [decide_eq_true_eq]
  intro hblank
  apply hc
  obtain rfl | rfl | rfl | rfl := hblank <;> decide

/-- Numbers begin neither with a blank nor with a bracket. -/
theorem beginsValue_of_isDigit {c : Char} (hc : c.isDigit) (ds : List Char) :
    BeginsValue (c :: ds) := by
  refine beginsValue_cons ?_ ds
  intro hmem
  have hnone : [' ', '\n', '\t', '\r', ']'].all fun d => !d.isDigit := by decide
  have hdigit := List.all_eq_true.1 hnone c hmem
  rw [hc] at hdigit
  cases hdigit

/-- The digits of a number begin with one of them. -/
theorem exists_digits_eq_cons (n : Nat) : ∃ d ds, digits n = d :: ds ∧ d.isDigit := by
  have hnum : IsNumeral (digits n) := isNumeral_toDigits n
  obtain ⟨d, ds, hds⟩ := List.exists_cons_of_ne_nil hnum.ne_nil
  exact ⟨d, ds, hds, hnum.digits d (by rw [hds]; exact List.mem_cons_self)⟩

/-- The text of a value begins with its first character and not with a blank. -/
theorem beginsValue_chars {v : Json} (hv : v.plain) : BeginsValue v.chars := by
  cases v with
  | natural n =>
    obtain ⟨d, ds, hds, hd⟩ := exists_digits_eq_cons n
    show BeginsValue (digits n)
    rw [hds]
    exact beginsValue_of_isDigit hd ds
  | decimal => cases hv
  | garbled => cases hv
  | bool b => cases b <;> exact beginsValue_cons (by decide) _
  | _ => exact beginsValue_cons (by decide) _

/-- What holds of all that is in a value holds of the value itself. -/
theorem plain_of_all {v : Json} (hv : v.all plain) : v.plain := by
  cases v with
  | array items => rfl
  | object fields => rfl
  | _ => exact hv

/-! ### One step of the reader -/

variable {fuel : Nat} {cs rest : List Char} {v : Json}

/-- Digits are told from the words, texts and brackets that a value can begin with. -/
theorem value_natural (n : Nat) (hrest : EndsNumber rest) :
    value (fuel + 1) (digits n ++ rest) = some (natural n, rest) := by
  refine Eq.trans ?_ (number_digits n hrest)
  obtain ⟨d, ds, hds, hd⟩ := exists_digits_eq_cons n
  rw [hds, List.cons_append]
  have hne : ∀ c ∈ ['n', 't', 'f', '"', '[', '{'], d ≠ c := by
    rintro c hmem rfl
    have hnone : ['n', 't', 'f', '"', '[', '{'].all fun c => !c.isDigit := by decide
    have hdigit := List.all_eq_true.1 hnone d hmem
    rw [hd] at hdigit
    cases hdigit
  simp only [List.mem_cons, List.not_mem_nil, or_false, forall_eq_or_imp, forall_eq] at hne
  simp [value, hne]

theorem value_string (s : String) (rest : List Char) :
    value (fuel + 1) (quote s ++ rest) = some (string s, rest) := by
  rw [quote_append, value, literal_quoted]
  rfl

/-- After an opening bracket the items are read, if there are any. -/
theorem value_array (hcs : BeginsValue cs) :
    value (fuel + 1) ('[' :: cs) = items fuel [] cs := by
  rw [value, skipBlanks_of_begins hcs]
  obtain ⟨c, ds, rfl, hc⟩ := hcs
  split
  next heq =>
    rw [List.cons.injEq] at heq
    exact absurd (by simp [heq.1]) hc
  next => rfl

/-- After an opening brace the fields are read, if there are any. -/
theorem value_object (hcs : cs.head? = some '"') :
    value (fuel + 1) ('{' :: cs) = fields fuel true [] cs := by
  obtain ⟨cs, rfl⟩ := List.head?_eq_some_iff.1 hcs
  rw [value, skipBlanks_of_begins (beginsValue_cons (by decide) _)]
  rfl

/-- A comma leads to the next item. -/
theorem items_step (done : List Json) (h : value fuel cs = some (v, ',' :: rest)) :
    items (fuel + 1) done cs = items fuel (v :: done) (skipBlanks rest) := by
  rw [items, h]
  rfl

/-- A bracket ends the items. -/
theorem items_stop (done : List Json) (h : value fuel cs = some (v, ']' :: rest)) :
    items (fuel + 1) done cs = some (array (v :: done).reverse, rest) := by
  rw [items, h]
  rfl

/-- A comma leads to the next field. -/
theorem fields_step (k : String) (done : List (String × Json)) (hcs : BeginsValue cs)
    (h : value fuel cs = some (v, ',' :: rest)) :
    fields (fuel + 1) true done (quote k ++ ':' :: cs) =
      fields fuel true ((k, v) :: done) (skipBlanks rest) := by
  rw [← skipBlanks_of_begins hcs] at h
  have hcolon : skipBlanks (':' :: cs) = ':' :: cs := rfl
  rw [quote_append, fields, literal_quoted]
  simp only [hcolon, h]
  rfl

/-- A brace ends the fields. -/
theorem fields_stop (k : String) (done : List (String × Json)) (hcs : BeginsValue cs)
    (h : value fuel cs = some (v, '}' :: rest)) :
    fields (fuel + 1) true done (quote k ++ ':' :: cs) =
      some (object ((k, v) :: done).reverse, rest) := by
  rw [← skipBlanks_of_begins hcs] at h
  have hcolon : skipBlanks (':' :: cs) = ':' :: cs := rfl
  rw [quote_append, fields, literal_quoted]
  simp only [hcolon, h]
  rfl

/-! ### A whole value -/

/-- Every value costs fuel, since it has a character at least. -/
theorem length_chars_pos (hv : v.plain) : 0 < v.chars.length := by
  obtain ⟨c, ds, hchars, -⟩ := beginsValue_chars hv
  rw [hchars]
  exact Nat.succ_pos _

/-- The items of an array begin where the first one does. -/
theorem beginsValue_charsOfItems {vs : List Json} (hvs : allItems plain (v :: vs)) :
    BeginsValue (charsOfItems (v :: vs)) := by
  rw [allItems, Bool.and_eq_true] at hvs
  have hv := beginsValue_chars (plain_of_all hvs.1)
  cases vs with
  | nil => exact hv
  | cons w vs => exact hv.append _

theorem head?_charsOfFields (f : String × Json) (fs : List (String × Json)) :
    (charsOfFields (f :: fs)).head? = some '"' := by
  cases fs <;> rfl

theorem charsOfItems_cons (v w : Json) (vs : List Json) :
    charsOfItems (v :: w :: vs) = v.chars ++ ',' :: charsOfItems (w :: vs) := rfl

theorem charsOfFields_cons (k : String) (v : Json) (f : String × Json)
    (fs : List (String × Json)) :
    charsOfFields ((k, v) :: f :: fs) =
      quote k ++ ':' :: (v.chars ++ ',' :: charsOfFields (f :: fs)) := by
  simp [charsOfFields]

mutual

/-- A value is read off the front of a text that begins with its characters. -/
theorem value_chars (v : Json) (rest : List Char) (fuel : Nat) (hv : v.all plain)
    (hfuel : 2 * v.chars.length ≤ fuel) (hrest : EndsNumber rest) :
    value fuel (v.chars ++ rest) = some (v, rest) := by
  -- the opening bracket pays for this call and for the one that reads the items or fields
  have hpos := length_chars_pos (plain_of_all hv)
  obtain ⟨fuel, rfl⟩ : ∃ n, fuel = n + 1 := ⟨fuel - 1, by omega⟩
  match v with
  | .null => rfl
  | .bool true => rfl
  | .bool false => rfl
  | .natural n => exact value_natural n hrest
  | .string s => exact value_string s rest
  | .array [] => rfl
  | .array (w :: ws) =>
    simp only [all, Bool.and_eq_true] at hv
    simp only [chars, List.length_append, List.length_cons, List.length_nil] at hfuel
    simp only [chars, List.cons_append, List.append_assoc, List.nil_append]
    rw [value_array ((beginsValue_charsOfItems hv.2).append _)]
    exact items_chars (w :: ws) [] rest fuel (List.cons_ne_nil w ws) hv.2 (by omega)
  | .object [] => rfl
  | .object (f :: fs) =>
    simp only [all, Bool.and_eq_true] at hv
    simp only [chars, List.length_append, List.length_cons, List.length_nil] at hfuel
    simp only [chars, List.cons_append, List.append_assoc, List.nil_append]
    have hhead : (charsOfFields (f :: fs) ++ '}' :: rest).head? = some '"' := by
      rw [List.head?_append, head?_charsOfFields]
      rfl
    rw [value_object hhead]
    exact fields_chars (f :: fs) [] rest fuel (List.cons_ne_nil f fs) hv.2 (by omega)
  | .decimal .. => nomatch hv
  | .garbled => nomatch hv
termination_by structural v

/-- Items are read up to the bracket and put after those that have been read. -/
theorem items_chars (vs done : List Json) (rest : List Char) (fuel : Nat) (hne : vs ≠ [])
    (hvs : allItems plain vs) (hfuel : 2 * (charsOfItems vs).length + 1 ≤ fuel) :
    items fuel done (charsOfItems vs ++ ']' :: rest) = some (array (done.reverse ++ vs), rest) := by
  obtain ⟨fuel, rfl⟩ : ∃ n, fuel = n + 1 := ⟨fuel - 1, by omega⟩
  match vs with
  | [] => exact absurd rfl hne
  | [v] =>
    rw [allItems, Bool.and_eq_true] at hvs
    have hchars : charsOfItems [v] = v.chars := rfl
    rw [hchars] at hfuel
    have hvalue := value_chars v (']' :: rest) fuel hvs.1 (by omega)
      (endsNumber_cons (by decide) rest)
    rw [hchars, items_stop done hvalue, List.reverse_cons]
  | v :: w :: ws =>
    rw [allItems, Bool.and_eq_true] at hvs
    rw [charsOfItems_cons, List.length_append, List.length_cons] at hfuel
    -- the comma pays for the step to the next item
    have hvalue := value_chars v (',' :: (charsOfItems (w :: ws) ++ ']' :: rest)) fuel hvs.1
      (by omega) (endsNumber_cons (by decide) _)
    have hitems := items_chars (w :: ws) (v :: done) rest fuel (List.cons_ne_nil w ws) hvs.2
      (by omega)
    rw [charsOfItems_cons, List.append_assoc, List.cons_append, items_step done hvalue,
      skipBlanks_of_begins ((beginsValue_charsOfItems hvs.2).append _), hitems,
      List.reverse_cons, List.append_assoc]
    rfl
termination_by structural vs

/-- Fields are read up to the brace and put after those that have been read. -/
theorem fields_chars (fs done : List (String × Json)) (rest : List Char) (fuel : Nat)
    (hne : fs ≠ []) (hfs : allFields plain fs)
    (hfuel : 2 * (charsOfFields fs).length + 1 ≤ fuel) :
    fields fuel true done (charsOfFields fs ++ '}' :: rest) =
      some (object (done.reverse ++ fs), rest) := by
  obtain ⟨fuel, rfl⟩ : ∃ n, fuel = n + 1 := ⟨fuel - 1, by omega⟩
  match fs with
  | [] => exact absurd rfl hne
  | [(k, v)] =>
    rw [allFields, Bool.and_eq_true] at hfs
    have hchars : charsOfFields [(k, v)] = quote k ++ ':' :: v.chars := rfl
    rw [hchars, List.length_append, List.length_cons] at hfuel
    have hvalue := value_chars v ('}' :: rest) fuel hfs.1 (by omega)
      (endsNumber_cons (by decide) rest)
    rw [hchars, List.append_assoc, List.cons_append,
      fields_stop k done ((beginsValue_chars (plain_of_all hfs.1)).append _) hvalue,
      List.reverse_cons]
  | (k, v) :: f :: gs =>
    rw [allFields, Bool.and_eq_true] at hfs
    rw [charsOfFields_cons, List.length_append, List.length_cons, List.length_append,
      List.length_cons] at hfuel
    have hvalue := value_chars v (',' :: (charsOfFields (f :: gs) ++ '}' :: rest)) fuel hfs.1
      (by omega) (endsNumber_cons (by decide) _)
    have hfields := fields_chars (f :: gs) ((k, v) :: done) rest fuel (List.cons_ne_nil f gs) hfs.2
      (by omega)
    have hbegins : BeginsValue (charsOfFields (f :: gs)) := by
      obtain ⟨cs, hcs⟩ := List.head?_eq_some_iff.1 (head?_charsOfFields f gs)
      rw [hcs]
      exact beginsValue_cons (by decide) cs
    have hbefore := (beginsValue_chars (plain_of_all hfs.1)).append
    rw [charsOfFields_cons, List.append_assoc, List.cons_append, List.append_assoc,
      List.cons_append, fields_step k done (hbefore _) hvalue,
      skipBlanks_of_begins (hbegins.append _), hfields, List.reverse_cons, List.append_assoc]
    rfl
termination_by structural fs

end

/-- The text of a value is read as the value. -/
theorem read?_compact {v : Json} (hv : v.all plain) : read? v.compact = some v := by
  have hvalue := value_chars v [] (2 * v.chars.length + 2) hv (by omega) (Scan.stops_nil _)
  rw [List.append_nil] at hvalue
  unfold read? compact ofChars?
  rw [String.toList_ofList, skipBlanks_of_begins (beginsValue_chars (plain_of_all hv)), hvalue]
  rfl

end Easel.Json
