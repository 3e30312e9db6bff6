import Easel.Proofs.Spelling
import Mathlib.Data.List.TakeWhile

/-!
# What is read from a line

A reader goes from place to place and counts the bytes it has passed, but only its
messages tell of them. `Scan.Reads` says of a reader what relation holds between the text
that follows, the result and the rest; it speaks of every place at once, so readers are
put together like relations (`Reads.bind`).

Main statement: `ofLine_reads_grammar`, a line is read as just the instruction that it
spells.
-/

namespace Easel

namespace Scan

variable {α β : Type}

/-- From any place, the reader finds just what the relation says of the text that follows,
the result and the rest. -/
def Reads (p : Scan α) (G : List Char → α → List Char → Prop) : Prop :=
  ∀ s a rest, (∃ t, p s = .ok (a, t) ∧ t.rest = rest) ↔ G s.rest a rest

/-- What is read may be told in another way. -/
theorem Reads.congr {p : Scan α} {G H : List Char → α → List Char → Prop} (h : p.Reads G)
    (hiff : ∀ cs a rest, G cs a rest ↔ H cs a rest) : p.Reads H :=
  fun s a rest => (h s a rest).trans (hiff s.rest a rest)

/-- Giving a value takes nothing from the line. -/
theorem reads_pure (a : α) : (pure a : Scan α).Reads fun cs b rest => b = a ∧ rest = cs := by
  intro s b rest
  constructor
  · intro h
    obtain ⟨t, ht, rfl⟩ := h
    cases ht
    exact ⟨rfl, rfl⟩
  · intro h
    obtain ⟨rfl, rfl⟩ := h
    exact ⟨s, rfl, rfl⟩

/-- A fault is no reading. -/
theorem reads_throw (e : LineFault) : (throw e : Scan α).Reads fun _ _ _ => False := by
  intro s b rest
  constructor
  · intro h
    obtain ⟨t, ht, -⟩ := h
    cases ht
  · intro h
    exact h.elim

/-- Of two readings in a row, the second one begins where the first one ends. -/
theorem Reads.bind {p : Scan α} {f : α → Scan β} {G : List Char → α → List Char → Prop}
    {H : α → List Char → β → List Char → Prop} (hp : p.Reads G) (hf : ∀ a, (f a).Reads (H a)) :
    (p >>= f).Reads fun cs b rest => ∃ a mid, G cs a mid ∧ H a mid b rest := by
  intro s b rest
  constructor
  · intro h
    obtain ⟨t, ht, hrest⟩ := h
    cases hps : p s with
    | error e =>
      simp only [Bind.bind, StateT.bind, Except.bind, hps] at ht
      cases ht
    | ok r =>
      simp only [Bind.bind, StateT.bind, Except.bind, hps] at ht
      exact ⟨r.1, r.2.rest, (hp s r.1 r.2.rest).1 ⟨r.2, hps, rfl⟩,
        (hf r.1 r.2 b rest).1 ⟨t, ht, hrest⟩⟩
  · intro h
    obtain ⟨a, mid, hG, hH⟩ := h
    obtain ⟨u, hu, rfl⟩ := (hp s a mid).2 hG
    obtain ⟨t, ht, hrest⟩ := (hf a u b rest).2 hH
    refine ⟨t, ?_, hrest⟩
    simp only [Bind.bind, StateT.bind, Except.bind, hu]
    exact ht

/-- The place itself tells nothing but what a message says. -/
theorem reads_place {f : Cursor → Scan α} {G : List Char → α → List Char → Prop}
    (hf : ∀ u, (f u).Reads G) : (get >>= f).Reads G :=
  fun s a rest => hf s s a rest

/-- A reader may look at what follows. -/
theorem reads_ahead {f : List Char → Scan α} {G : List Char → List Char → α → List Char → Prop}
    (hf : ∀ ahead, (f ahead).Reads (G ahead)) :
    (get >>= fun u => f u.rest).Reads fun cs a rest => G cs cs a rest :=
  fun s a rest => hf s.rest s a rest

/-- A reader may go on in one of two ways, as what follows tells. -/
theorem reads_ahead_or (P : List Char → Prop) {f g : Cursor → Scan α} {p : Scan α}
    {G H : List Char → α → List Char → Prop} (hp : p.Reads G) (hg : (get >>= g).Reads H)
    (hpos : ∀ u, P u.rest → f u = p) (hneg : ∀ u, ¬ P u.rest → f u = g u) :
    (get >>= f).Reads fun cs a rest => P cs ∧ G cs a rest ∨ ¬ P cs ∧ H cs a rest := by
  intro s a rest
  show (∃ t, f s s = _ ∧ _) ↔ _
  by_cases h : P s.rest
  · rw [hpos s h]
    exact (hp s a rest).trans (by simp [h])
  · rw [hneg s h]
    exact (hg s a rest).trans (by simp [h])

/-! ## Characters and digits -/

/-- The text does not go on with a character of the class. -/
def Stops (p : Char → Bool) (rest : List Char) : Prop :=
  ∀ c ∈ rest.head?, ¬ p c

@[simp] theorem stops_nil (p : Char → Bool) : Stops p [] := nofun

@[simp] theorem stops_cons {p : Char → Bool} {c : Char} {rest : List Char} :
    Stops p (c :: rest) ↔ ¬ p c := by
  simp [Stops]

/-- A wanted character is read if it stands there. -/
theorem reads_expect (want : Char) :
    (expect want).Reads fun cs _ rest => cs = want :: rest := by
  intro s a rest
  unfold expect
  cases s.rest with
  | nil => simp
  | cons c cs =>
    by_cases h : c = want
    · simp [h, eq_comm]
    · simp [h]

/-- The end is read where nothing is left. -/
theorem reads_expectEnd : expectEnd.Reads fun cs _ rest => cs = [] ∧ rest = [] := by
  intro s a rest
  unfold expectEnd
  cases h : s.rest with
  | nil => simp [h, eq_comm]
  | cons c cs => simp

/-- A longest run of characters of a class, told by its ends. -/
theorem span_iff {p : Char → Bool} {cs w rest : List Char} :
    w = cs.takeWhile p ∧ cs.dropWhile p = rest ↔
      cs = w ++ rest ∧ (∀ c ∈ w, p c) ∧ Stops p rest := by
  constructor
  · intro h
    obtain ⟨rfl, rfl⟩ := h
    refine ⟨List.takeWhile_append_dropWhile.symm, fun c hc => List.mem_takeWhile_imp hc, ?_⟩
    intro c hc
    have hfirst := List.head?_dropWhile_not p cs
    rw [Option.mem_def.1 hc] at hfirst
    simpa using hfirst
  · intro h
    obtain ⟨rfl, hw, hrest⟩ := h
    have htake : rest.takeWhile p = [] := by
      cases rest with
      | nil => rfl
      | cons c rest => exact List.takeWhile_cons_of_neg (stops_cons.1 hrest)
    have hdrop : rest.dropWhile p = rest := by
      cases rest with
      | nil => rfl
      | cons c rest => exact List.dropWhile_cons_of_neg (stops_cons.1 hrest)
    rw [List.takeWhile_append_of_pos hw, List.dropWhile_append_of_pos hw, htake, hdrop]
    exact ⟨(List.append_nil w).symm, rfl⟩

/-- As many characters are read as have the property. -/
theorem reads_span (p : Char → Bool) :
    (span p).Reads fun cs w rest => cs = w ++ rest ∧ (∀ c ∈ w, p c) ∧ Stops p rest := by
  intro s w rest
  refine Iff.trans ?_ span_iff
  constructor
  · intro h
    obtain ⟨t, ht, rfl⟩ := h
    cases ht
    exact ⟨rfl, rfl⟩
  · intro h
    obtain ⟨rfl, rfl⟩ := h
    exact ⟨_, rfl, rfl⟩

/-- What begins with a zero has the numeral of zero in front, unless digits follow. -/
theorem zero_cons_iff {cs ds rest : List Char} :
    '0' :: cs = ds ++ rest ∧ IsNumeral ds ∧ Stops Char.isDigit rest ↔
      ds = ['0'] ∧ rest = cs ∧ Stops Char.isDigit cs := by
  constructor
  · intro h
    obtain ⟨hcs, hnum, hrest⟩ := h
    rcases List.cons_eq_append_iff.1 hcs with hnil | hcons
    · exact absurd hnil.1 hnum.ne_nil
    · obtain ⟨tail, rfl, htail⟩ := hcons
      have hzero := hnum.no_leading_zero rfl
      rw [List.cons.injEq] at hzero
      rw [hzero.2, List.nil_append] at htail
      subst htail
      exact ⟨by rw [hzero.2], rfl, hrest⟩
  · intro h
    obtain ⟨rfl, rfl, hrest⟩ := h
    exact ⟨rfl, isNumeral_toDigits 0, hrest⟩

/-- What begins with another digit has all the digits that follow in front. -/
theorem digit_cons_iff {c : Char} {cs ds rest : List Char} (hzero : c ≠ '0') (hc : c.isDigit) :
    c :: cs = ds ++ rest ∧ IsNumeral ds ∧ Stops Char.isDigit rest ↔
      c :: cs = ds ++ rest ∧ (∀ d ∈ ds, d.isDigit) ∧ Stops Char.isDigit rest := by
  constructor
  · intro h
    obtain ⟨hcs, hnum, hrest⟩ := h
    exact ⟨hcs, hnum.digits, hrest⟩
  · intro h
    obtain ⟨hcs, hdigits, hrest⟩ := h
    rcases List.cons_eq_append_iff.1 hcs with hnil | hcons
    · rw [hnil.2, stops_cons] at hrest
      exact absurd hc hrest
    · obtain ⟨tail, rfl, -⟩ := hcons
      refine ⟨hcs, ⟨List.cons_ne_nil _ _, hdigits, ?_⟩, hrest⟩
      intro hhead
      exact absurd (Option.some.inj hhead) hzero

/-- Digits are read to their end, if they are a numeral. -/
theorem reads_digits :
    digits.Reads fun cs ds rest => cs = ds ++ rest ∧ IsNumeral ds ∧ Stops Char.isDigit rest := by
  intro s ds rest
  unfold digits
  cases hs : s.rest with
  | nil =>
    refine ⟨by simp, ?_⟩
    intro h
    exact absurd (List.append_eq_nil_iff.1 h.1.symm).1 h.2.1.ne_nil
  | cons c cs =>
    by_cases hzero : c = '0'
    · subst hzero
      refine Iff.trans ?_ zero_cons_iff.symm
      cases cs with
      | nil => simp [eq_comm]
      | cons d cs => by_cases hd : d.isDigit <;> simp [hd, eq_comm]
    · by_cases hc : c.isDigit
      · simp only [hzero, hc, if_true, if_false]
        rw [digit_cons_iff hzero hc, ← hs]
        exact reads_span Char.isDigit s ds rest
      · simp only [hzero, hc, if_false]
        refine ⟨by simp, ?_⟩
        intro h
        obtain ⟨hcs, hnum, -⟩ := h
        rcases List.cons_eq_append_iff.1 hcs with hnil | hcons
        · exact absurd hnil.1 hnum.ne_nil
        · obtain ⟨tail, rfl, -⟩ := hcons
          exact absurd (hnum.digits c List.mem_cons_self) hc

/-- What is read under a condition is read where the condition holds. -/
theorem reads_ite_throw {c : Prop} [Decidable c] {p : Scan α}
    {G : List Char → α → List Char → Prop} {e : LineFault} (hp : p.Reads G) :
    (if c then p else throw e).Reads fun cs a rest => c ∧ G cs a rest := by
  by_cases h : c
  · rw [if_pos h]
    exact hp.congr fun _ _ _ => (and_iff_right h).symm
  · rw [if_neg h]
    exact (reads_throw e).congr fun _ _ _ => by simp [h]

/-- A number is read from its numeral, if it fits a coordinate. -/
theorem reads_number :
    number.Reads fun cs n rest =>
      ∃ ds, cs = ds ++ rest ∧ Denotes ds n.val ∧ Stops Char.isDigit rest := by
  have hbound (start : Nat) (ds : List Char) :
      (if h : Nat.ofDigitChars 10 ds 0 < 4294967296 then pure ⟨Nat.ofDigitChars 10 ds 0, h⟩
        else throw (.outOfRange start) : Scan Coordinate).Reads
        fun cs n rest => n.val = Nat.ofDigitChars 10 ds 0 ∧ rest = cs := by
    split
    next h =>
      refine (reads_pure _).congr fun cs n rest => ?_
      rw [Fin.ext_iff]
    next h =>
      refine (reads_throw _).congr fun cs n rest => ?_
      refine ⟨False.elim, fun hn => h ?_⟩
      rw [← hn.1]
      exact n.isLt
  refine (reads_place fun u =>
    reads_digits.bind fun ds => hbound u.position ds).congr ?_
  intro cs n rest
  constructor
  · intro h
    obtain ⟨ds, mid, ⟨hcs, hnum, hstop⟩, hn, rfl⟩ := h
    exact ⟨ds, hcs, ⟨hnum, hn.symm⟩, hstop⟩
  · intro h
    obtain ⟨ds, hcs, hds, hstop⟩ := h
    exact ⟨ds, rest, ⟨hcs, hds.numeral, hstop⟩, hds.value.symm, rfl⟩

/-- A channel is read from its numeral, if it fits a byte. -/
theorem reads_channel :
    channel.Reads fun cs c rest =>
      ∃ ds, cs = ds ++ rest ∧ Denotes ds c.toNat ∧ Stops Char.isDigit rest := by
  have hbound (start : Nat) (n : Coordinate) :
      (if n.val < 256 then pure (UInt8.ofNat n.val) else throw (.channelTooLarge start)
        : Scan UInt8).Reads fun cs c rest => n.val < 256 ∧ c = UInt8.ofNat n.val ∧ rest = cs :=
    reads_ite_throw (reads_pure (UInt8.ofNat n.val))
  refine (reads_place fun u =>
    reads_number.bind fun n => hbound u.position n).congr ?_
  intro cs c rest
  constructor
  · intro h
    obtain ⟨n, mid, ⟨ds, hcs, hds, hstop⟩, hn, rfl, rfl⟩ := h
    refine ⟨ds, hcs, ?_, hstop⟩
    rwa [UInt8.toNat_ofNat_of_lt' hn]
  · intro h
    obtain ⟨ds, hcs, hds, hstop⟩ := h
    have hc : c.toNat < 256 := c.toNat_lt
    refine ⟨⟨c.toNat, by omega⟩, rest, ⟨ds, hcs, hds, hstop⟩, hc, ?_, rfl⟩
    exact (UInt8.ofNat_toNat).symm

/-! ## Names -/

/-- What is read of a text that goes on with numbers behind points. A point is left over
only if there were as many numbers as could be read. -/
inductive Dotted : Nat → List Char → List Char → List Char → Prop
  | full (cs : List Char) : Dotted 0 cs [] cs
  | stop {n : Nat} {cs : List Char} (h : cs.head? ≠ some '.') : Dotted (n + 1) cs [] cs
  | cons {n : Nat} {ds mid w rest : List Char} (hds : IsNumeral ds)
      (hstop : Stops Char.isDigit mid) (h : Dotted n mid w rest) :
      Dotted (n + 1) ('.' :: ds ++ mid) ('.' :: ds ++ w) rest

/-- The reader takes one further part of a name at a time. -/
theorem reads_dotted (n : Nat) : (dotted n).Reads (Dotted n) := by
  induction n with
  | zero =>
    refine (reads_pure []).congr fun cs w rest => ?_
    constructor
    · intro h
      obtain ⟨rfl, rfl⟩ := h
      exact .full rest
    · intro h
      cases h
      exact ⟨rfl, rfl⟩
  | succ n ih =>
    have hpoint := (reads_expect '.').bind fun _ => reads_digits.bind fun ds =>
      ih.bind fun v => reads_pure ('.' :: ds ++ v)
    refine (reads_ahead_or (fun cs => cs.head? = some '.') hpoint
      (reads_place fun _ => reads_pure []) ?_ ?_).congr fun cs w rest => ?_
    · intro u hu
      obtain ⟨tail, htail⟩ := List.head?_eq_some_iff.1 hu
      rw [htail]
      rfl
    · intro u hu
      split
      next tail htail =>
        rw [htail] at hu
        exact absurd rfl hu
      next => rfl
    constructor
    · intro h
      obtain ⟨-, -, _, rfl, ds, mid, ⟨rfl, hds, hstop⟩, v, _, hv, rfl, rfl⟩ | ⟨hhead, rfl, rfl⟩ := h
      · exact .cons hds hstop hv
      · exact .stop hhead
    · intro h
      cases h with
      | stop hhead => exact .inr ⟨hhead, rfl, rfl⟩
      | cons hds hstop hv =>
        exact .inl ⟨rfl, (), _, rfl, _, _, ⟨rfl, hds, hstop⟩, _, _, hv, rfl, rfl⟩

/-- Further parts of a name are numerals, each after a point. -/
theorem Dotted.parts {n : Nat} {cs w rest : List Char} (h : Dotted n cs w rest) :
    cs = w ++ rest ∧
      ∃ parts : List (List Char), w = parts.flatMap ('.' :: ·) ∧ ∀ ds ∈ parts, IsNumeral ds := by
  induction h with
  | full cs => exact ⟨rfl, [], rfl, nofun⟩
  | stop _ => exact ⟨rfl, [], rfl, nofun⟩
  | cons hds _ _ ih =>
    obtain ⟨rfl, parts, rfl, hnum⟩ := ih
    refine ⟨by simp, _ :: parts, rfl, ?_⟩
    intro es hes
    rcases List.mem_cons.1 hes with rfl | hes
    · exact hds
    · exact hnum es hes

/-- Numerals after points are read as further parts, up to the bracket. -/
theorem dotted_of_parts {n : Nat} {parts : List (List Char)} (hnum : ∀ ds ∈ parts, IsNumeral ds)
    (hlen : parts.length ≤ n) (rest : List Char) :
    Dotted n (parts.flatMap ('.' :: ·) ++ ']' :: rest) (parts.flatMap ('.' :: ·))
      (']' :: rest) := by
  induction parts generalizing n with
  | nil =>
    cases n with
    | zero => exact .full _
    | succ n => exact .stop (by simp)
  | cons ds parts ih =>
    cases n with
    | zero => exact absurd hlen (Nat.not_succ_le_zero _)
    | succ n =>
      have htail := ih (fun es hes => hnum es (List.mem_cons_of_mem _ hes))
        (Nat.le_of_succ_le_succ hlen)
      have hstop : Stops Char.isDigit (parts.flatMap ('.' :: ·) ++ ']' :: rest) := by
        cases parts <;> simp
      rw [List.flatMap_cons, List.append_assoc]
      exact .cons (hnum ds List.mem_cons_self) hstop htail

theorem length_le_length_flatMap (parts : List (List Char)) :
    parts.length ≤ (parts.flatMap ('.' :: ·)).length := by
  induction parts with
  | nil => exact Nat.le_refl 0
  | cons ds parts ih =>
    simp only [List.flatMap_cons, List.length_append, List.length_cons]
    omega

/-- A name is read in its brackets; the rest of the line is fuel enough for its parts. -/
theorem reads_blockId :
    blockId.Reads fun cs id rest => cs = bracketed id.toList ++ rest ∧ IsBlockId id := by
  have hrest (first : List Char) := reads_ahead fun ahead =>
    (reads_dotted ahead.length).bind fun w =>
      (reads_expect ']').bind fun _ => reads_pure (String.ofList (first ++ w))
  refine ((reads_expect '[').bind fun _ => reads_digits.bind hrest).congr fun cs id rest => ?_
  rw [isBlockId_iff]
  constructor
  · intro h
    obtain ⟨-, _, rfl, first, mid, ⟨rfl, hfirst, -⟩, w, _, hw, -, _, rfl, rfl, rfl⟩ := h
    obtain ⟨rfl, parts, rfl, hnum⟩ := hw.parts
    exact ⟨by simp [bracketed], first, parts, hfirst, hnum, by simp⟩
  · intro h
    obtain ⟨rfl, first, parts, hfirst, hnum, hid⟩ := h
    have hstop : Stops Char.isDigit (parts.flatMap ('.' :: ·) ++ ']' :: rest) := by
      cases parts <;> simp
    have hlen : parts.length ≤ (parts.flatMap ('.' :: ·) ++ ']' :: rest).length := by
      rw [List.length_append]
      exact Nat.le_trans (length_le_length_flatMap parts) (Nat.le_add_right _ _)
    refine ⟨(), _, rfl, first, _, ⟨?_, hfirst, hstop⟩, _, _, dotted_of_parts hnum hlen rest, (),
      rest, rfl, ?_, rfl⟩
    · rw [hid]
      simp
    · rw [← hid, String.ofList_toList]

/-! ## Operands -/

/-- A wanted character can stand before what is read. -/
theorem Reads.after {p : Scan β} {H : List Char → β → List Char → Prop} (hp : p.Reads H)
    (want : Char) :
    (expect want >>= fun _ => p).Reads fun cs b rest => ∃ mid, cs = want :: mid ∧ H mid b rest :=
  ((reads_expect want).bind fun _ => hp).congr fun _ _ _ => by simp

/-- A number and the character that has to end it. -/
theorem Reads.until {p : Scan α} {value : α → Nat} {f : α → Scan β}
    {H : α → List Char → β → List Char → Prop}
    (hp : p.Reads fun cs a rest => ∃ ds, cs = ds ++ rest ∧ Denotes ds (value a) ∧
      Stops Char.isDigit rest)
    (want : Char) (hwant : ¬ want.isDigit) (hf : ∀ a, (f a).Reads (H a)) :
    (p >>= fun a => expect want >>= fun _ => f a).Reads fun cs b rest =>
      ∃ a ds mid, cs = ds ++ want :: mid ∧ Denotes ds (value a) ∧ H a mid b rest := by
  refine (hp.bind fun a => (hf a).after want).congr fun cs b rest => ?_
  constructor
  · intro h
    obtain ⟨a, _, ⟨ds, rfl, hds, -⟩, mid, rfl, hb⟩ := h
    exact ⟨a, ds, mid, rfl, hds, hb⟩
  · intro h
    obtain ⟨a, ds, mid, rfl, hds, hb⟩ := h
    exact ⟨a, _, ⟨ds, rfl, hds, stops_cons.2 hwant⟩, mid, rfl, hb⟩

/-- A colour is read from the numerals of its channels. -/
theorem reads_colour :
    colour.Reads fun cs c rest => ∃ r g b a,
      cs = bracketed (r ++ ',' :: g ++ ',' :: b ++ ',' :: a) ++ rest ∧ Denotes r c.r.toNat ∧
      Denotes g c.g.toNat ∧ Denotes b c.b.toNat ∧ Denotes a c.a.toNat := by
  have hchannels := Reads.after (reads_channel.until ',' (by decide) fun r =>
    reads_channel.until ',' (by decide) fun g =>
    reads_channel.until ',' (by decide) fun b =>
    reads_channel.until ']' (by decide) fun a => reads_pure (Rgba.mk r g b a)) '['
  refine hchannels.congr fun cs c rest => ?_
  constructor
  · intro h
    obtain ⟨_, rfl, r, rs, _, rfl, hr, g, gs, _, rfl, hg, b, bs, _, rfl, hb, a, as, _, rfl, ha, rfl,
      rfl⟩ := h
    exact ⟨rs, gs, bs, as, by simp [bracketed], hr, hg, hb, ha⟩
  · intro h
    obtain ⟨rs, gs, bs, as, rfl, hr, hg, hb, ha⟩ := h
    exact ⟨_, rfl, c.r, rs, gs ++ ',' :: (bs ++ ',' :: (as ++ ']' :: rest)), by simp, hr, c.g, gs,
      _, rfl, hg, c.b, bs, _, rfl, hb, c.a, as, rest, rfl, ha, rfl, rfl⟩

/-- After the letter of an axis, the place on the axis is read. -/
theorem reads_line :
    cut.line.Reads fun cs n rest =>
      ∃ ds, cs.tail = ']' :: bracketed ds ++ rest ∧ Denotes ds n.val := by
  have hskip : (modify fun s : Cursor => { rest := s.rest.tail, position := s.position + 1 }
      : Scan Unit).Reads fun cs _ rest => rest = cs.tail := by
    intro s a rest
    constructor
    · intro h
      obtain ⟨t, ht, rfl⟩ := h
      cases ht
      rfl
    · intro h
      exact ⟨_, rfl, h.symm⟩
  have hnumber := reads_number.until ']' (by decide) fun n => reads_pure n
  refine (hskip.bind fun _ => (hnumber.after '[').after ']').congr fun cs n rest => ?_
  constructor
  · intro h
    obtain ⟨-, _, hcs, _, rfl, _, rfl, n, ds, _, rfl, hds, rfl, rfl⟩ := h
    exact ⟨ds, by simp [bracketed, ← hcs], hds⟩
  · intro h
    obtain ⟨ds, hcs, hds⟩ := h
    exact ⟨(), _, hcs.symm, _, rfl, _, rfl, n, ds, rest, by simp, hds, rfl, rfl⟩

theorem cons_of_head_or {c d : Char} {cs tail : List Char}
    (hhead : cs.head? = some c ∨ cs.head? = some d) (htail : cs.tail = tail) :
    ∃ e, (e = c ∨ e = d) ∧ cs = e :: tail := by
  subst htail
  rcases hhead with hhead | hhead
  · exact ⟨c, .inl rfl, List.eq_cons_of_mem_head? hhead⟩
  · exact ⟨d, .inr rfl, List.eq_cons_of_mem_head? hhead⟩

/-- Where a cut lies is told by the next letter. -/
theorem cut_eq (id : String) :
    cut id = expect '[' >>= fun _ => get >>= fun u =>
      if u.rest.head? = some 'x' ∨ u.rest.head? = some 'X' then
        cut.line >>= fun x => pure (.verticalCut id x)
      else if u.rest.head? = some 'y' ∨ u.rest.head? = some 'Y' then
        cut.line >>= fun y => pure (.horizontalCut id y)
      else number >>= fun x => expect ',' >>= fun _ => number >>= fun y => expect ']' >>= fun _ =>
        pure (.pointCut id (.ofCoordinates x y)) := by
  unfold cut
  congr 1
  funext _
  congr 1
  funext u
  split
  next h => simp [h]
  next h => simp [h]
  next h => simp [h]
  next h => simp [h]
  next hx hX hy hY =>
    have hhead {c : Char} (hc : ∀ tail, u.rest ≠ c :: tail) : u.rest.head? ≠ some c := by
      intro h
      obtain ⟨tail, htail⟩ := List.head?_eq_some_iff.1 h
      exact hc tail htail
    simp only [hhead hx, hhead hX, hhead hy, hhead hY, or_self, if_false]

/-- What stands in the second brackets tells the three cuts apart. -/
theorem reads_cut (id : String) :
    (cut id).Reads fun cs i rest =>
      (∃ axis ds x, cs = bracketed [axis] ++ bracketed ds ++ rest ∧ (axis = 'x' ∨ axis = 'X') ∧
        Denotes ds x.val ∧ i = .verticalCut id x) ∨
      (∃ axis ds y, cs = bracketed [axis] ++ bracketed ds ++ rest ∧ (axis = 'y' ∨ axis = 'Y') ∧
        Denotes ds y.val ∧ i = .horizontalCut id y) ∨
      ∃ xs ys p, cs = bracketed (xs ++ ',' :: ys) ++ rest ∧ Denotes xs p.x ∧ Denotes ys p.y ∧
        i = .pointCut id p := by
  have hpoint := reads_number.until ',' (by decide) fun x =>
    reads_number.until ']' (by decide) fun y =>
      reads_pure (Instruction.pointCut id (.ofCoordinates x y))
  have hvertical := reads_line.bind fun x => reads_pure (Instruction.verticalCut id x)
  have hhorizontal := reads_line.bind fun y => reads_pure (Instruction.horizontalCut id y)
  have hrest := reads_ahead_or (fun cs => cs.head? = some 'y' ∨ cs.head? = some 'Y')
    (f := fun u => if u.rest.head? = some 'y' ∨ u.rest.head? = some 'Y' then _ else _)
    hhorizontal (reads_place fun _ => hpoint) (fun u hu => if_pos hu) (fun u hu => if_neg hu)
  have hplace := reads_ahead_or (fun cs => cs.head? = some 'x' ∨ cs.head? = some 'X')
    (f := fun u => if u.rest.head? = some 'x' ∨ u.rest.head? = some 'X' then _ else _)
    hvertical hrest (fun u hu => if_pos hu) (fun u hu => if_neg hu)
  rw [cut_eq]
  refine (hplace.after '[').congr fun cs i rest => ?_
  constructor
  · rintro ⟨mid, rfl, hx | ⟨-, hy | ⟨-, hp⟩⟩⟩
    · obtain ⟨hhead, x, _, ⟨ds, htail, hds⟩, rfl, rfl⟩ := hx
      obtain ⟨axis, haxis, rfl⟩ := cons_of_head_or hhead htail
      exact .inl ⟨axis, ds, x, by simp [bracketed], haxis, hds, rfl⟩
    · obtain ⟨hhead, y, _, ⟨ds, htail, hds⟩, rfl, rfl⟩ := hy
      obtain ⟨axis, haxis, rfl⟩ := cons_of_head_or hhead htail
      exact .inr (.inl ⟨axis, ds, y, by simp [bracketed], haxis, hds, rfl⟩)
    · obtain ⟨x, xs, _, rfl, hx, y, ys, _, rfl, hy, rfl, rfl⟩ := hp
      exact .inr (.inr ⟨xs, ys, .ofCoordinates x y, by simp [bracketed], hx, hy, rfl⟩)
  · rintro (⟨axis, ds, x, rfl, haxis, hds, rfl⟩ | ⟨axis, ds, y, rfl, haxis, hds, rfl⟩ |
      ⟨xs, ys, p, rfl, hx, hy, rfl⟩)
    · exact ⟨_, rfl, .inl ⟨by simpa using haxis, x, rest, ⟨ds, rfl, hds⟩, rfl, rfl⟩⟩
    · refine ⟨_, rfl, .inr ⟨?_, .inl ⟨by simpa using haxis, y, rest, ⟨ds, rfl, hds⟩, rfl, rfl⟩⟩⟩
      rcases haxis with rfl | rfl <;> simp
    · have hletter {c : Char} (hc : ¬ c.isDigit) :
          (xs ++ ',' :: (ys ++ ']' :: rest)).head? ≠ some c := by
        intro h
        rw [List.head?_append_of_ne_nil _ hx.numeral.ne_nil] at h
        exact hc (hx.numeral.digits c (List.mem_of_head? h))
      refine ⟨xs ++ ',' :: (ys ++ ']' :: rest), by simp [bracketed], .inr ⟨?_, .inr ⟨?_,
        ⟨p.x, p.x_lt⟩, xs, _, rfl, hx, ⟨p.y, p.y_lt⟩, ys, rest, rfl, hy, rfl, rfl⟩⟩⟩
      · exact not_or.2 ⟨hletter (by decide), hletter (by decide)⟩
      · exact not_or.2 ⟨hletter (by decide), hletter (by decide)⟩

/-! ## Instructions -/

/-- After a word everything is read that may follow it. -/
theorem reads_operands (word : String) :
    (operands word).Reads fun cs i rest => ∃ w, cs = w ++ rest ∧ SpellsAfter word w i := by
  have hcolour := reads_blockId.bind fun id => reads_colour.bind fun c =>
    reads_pure (Instruction.colour id c)
  have hcut := reads_blockId.bind fun id => reads_cut id
  have hpair (f : String → String → Instruction) := reads_blockId.bind fun id₁ =>
    reads_blockId.bind fun id₂ => reads_pure (f id₁ id₂)
  unfold operands
  split
  next =>
    refine hcolour.congr fun cs i rest => ?_
    constructor
    · rintro ⟨id, _, ⟨rfl, hid⟩, c, _, ⟨r, g, b, a, rfl, hr, hg, hb, ha⟩, rfl, rfl⟩
      exact ⟨_, (List.append_assoc _ _ _).symm, .colour hid hr hg hb ha⟩
    · rintro ⟨w, rfl, hw⟩
      generalize hword : "color" = word at hw
      cases hw with
      | colour hid hr hg hb ha =>
        exact ⟨_, _, ⟨List.append_assoc _ _ _, hid⟩, _, _, ⟨_, _, _, _, rfl, hr, hg, hb, ha⟩,
          rfl, rfl⟩
      | _ => exact absurd hword (by decide)
  next =>
    refine hcut.congr fun cs i rest => ?_
    constructor
    · rintro ⟨id, _, ⟨rfl, hid⟩, ⟨axis, ds, x, rfl, haxis, hx, rfl⟩ |
        ⟨axis, ds, y, rfl, haxis, hy, rfl⟩ | ⟨xs, ys, p, rfl, hx, hy, rfl⟩⟩
      · exact ⟨_, by simp, .verticalCut hid haxis hx⟩
      · exact ⟨_, by simp, .horizontalCut hid haxis hy⟩
      · exact ⟨_, by simp, .pointCut hid hx hy⟩
    · rintro ⟨w, rfl, hw⟩
      generalize hword : "cut" = word at hw
      cases hw with
      | verticalCut hid haxis hx =>
        exact ⟨_, _, ⟨by simp, hid⟩, .inl ⟨_, _, _, rfl, haxis, hx, rfl⟩⟩
      | horizontalCut hid haxis hy =>
        exact ⟨_, _, ⟨by simp, hid⟩, .inr (.inl ⟨_, _, _, rfl, haxis, hy, rfl⟩)⟩
      | pointCut hid hx hy =>
        exact ⟨_, _, ⟨by simp, hid⟩, .inr (.inr ⟨_, _, _, rfl, hx, hy, rfl⟩)⟩
      | _ => exact absurd hword (by decide)
  next =>
    refine (hpair .swap).congr fun cs i rest => ?_
    constructor
    · rintro ⟨id₁, _, ⟨rfl, hid₁⟩, id₂, _, ⟨rfl, hid₂⟩, rfl, rfl⟩
      exact ⟨_, (List.append_assoc _ _ _).symm, .swap hid₁ hid₂⟩
    · rintro ⟨w, rfl, hw⟩
      generalize hword : "swap" = word at hw
      cases hw with
      | swap hid₁ hid₂ =>
        exact ⟨_, _, ⟨List.append_assoc _ _ _, hid₁⟩, _, _, ⟨rfl, hid₂⟩, rfl, rfl⟩
      | _ => exact absurd hword (by decide)
  next =>
    refine (hpair .merge).congr fun cs i rest => ?_
    constructor
    · rintro ⟨id₁, _, ⟨rfl, hid₁⟩, id₂, _, ⟨rfl, hid₂⟩, rfl, rfl⟩
      exact ⟨_, (List.append_assoc _ _ _).symm, .merge hid₁ hid₂⟩
    · rintro ⟨w, rfl, hw⟩
      generalize hword : "merge" = word at hw
      cases hw with
      | merge hid₁ hid₂ =>
        exact ⟨_, _, ⟨List.append_assoc _ _ _, hid₁⟩, _, _, ⟨rfl, hid₂⟩, rfl, rfl⟩
      | _ => exact absurd hword (by decide)
  next hcolour hcut hswap hmerge =>
    refine (reads_throw _).congr fun cs i rest => ⟨False.elim, ?_⟩
    rintro ⟨w, -, hw⟩
    cases hw with
    | colour => exact hcolour rfl
    | pointCut => exact hcut rfl
    | verticalCut => exact hcut rfl
    | horizontalCut => exact hcut rfl
    | swap => exact hswap rfl
    | merge => exact hmerge rfl

/-- A line without blanks is read just if it spells an instruction. -/
theorem reads_instruction : instruction.Reads fun cs i rest => rest = [] ∧ Spells cs i := by
  refine ((reads_span Char.isAlpha).bind fun word =>
    (reads_operands (String.ofList word)).bind fun i =>
      reads_expectEnd.bind fun _ => reads_pure i).congr fun cs i rest => ?_
  constructor
  · rintro ⟨word, _, ⟨rfl, -, -⟩, i, _, ⟨w, rfl, hw⟩, -, _, ⟨rfl, rfl⟩, rfl, rfl⟩
    exact ⟨rfl, String.ofList word, w, by simp, hw⟩
  · rintro ⟨rfl, word, w, rfl, hw⟩
    have halpha : (∀ c ∈ word.toList, c.isAlpha) ∧ Stops Char.isAlpha w := by
      cases hw <;> exact ⟨List.all_eq_true.1 rfl, stops_cons.2 (by decide)⟩
    exact ⟨word.toList, w, ⟨rfl, halpha⟩, i, [], ⟨w, by simp, by rwa [String.ofList_toList]⟩, (),
      [], ⟨rfl, rfl⟩, rfl, rfl⟩

end Scan

/-! ## Lines -/

open Text

/-- What is left of a text begins with its first character that is no blank. -/
theorem head?_trimStart (cs : List Char) : (trimStart cs).head? = (compact cs).head? := by
  induction cs with
  | nil => rfl
  | cons c cs ih =>
    by_cases hc : IsBlank c
    · have htrim : trimStart (c :: cs) = trimStart cs :=
        List.dropWhile_cons_of_pos (by simpa using hc)
      have hcompact : compact (c :: cs) = compact cs :=
        List.filter_cons_of_neg (by simpa using hc)
      rw [htrim, hcompact, ih]
    · have htrim : trimStart (c :: cs) = c :: cs :=
        List.dropWhile_cons_of_neg (by simpa using hc)
      have hcompact : compact (c :: cs) = c :: compact cs :=
        List.filter_cons_of_pos (by simpa using hc)
      rw [htrim, hcompact, List.head?_cons, List.head?_cons]

/-- On a line that is neither blank nor a comment, the reader of instructions decides. -/
theorem ofChars_eq_ok_iff {cs : List Char} (hblank : (compact cs).head? ≠ none)
    (hhash : (compact cs).head? ≠ some '#') (i : Instruction) :
    Instruction.ofChars cs = .ok i ↔ Spells (compact cs) i := by
  rw [← head?_trimStart] at hblank hhash
  unfold Instruction.ofChars
  split
  next h => exact absurd (congrArg List.head? h) hblank
  next text h => exact absurd (congrArg List.head? h) hhash
  next =>
    have hread := Scan.reads_instruction { rest := compact cs } i
    constructor
    · intro h
      cases hscan : Scan.instruction { rest := compact cs } with
      | error e =>
        rw [hscan] at h
        cases h
      | ok r =>
        rw [hscan] at h
        cases h
        exact ((hread r.2.rest).1 ⟨r.2, hscan, rfl⟩).2
    · intro h
      obtain ⟨t, hscan, -⟩ := (hread []).2 ⟨rfl, h⟩
      rw [hscan]
      rfl

/-- A text that spells an instruction begins with a letter. -/
theorem Spells.head?_isAlpha {cs : List Char} {i : Instruction} (h : Spells cs i) :
    ∃ c, cs.head? = some c ∧ c.isAlpha := by
  obtain ⟨word, w, rfl, hw⟩ := h
  cases hw <;> exact ⟨_, rfl, by decide⟩

/-- What a line spells is what it is read as. -/
theorem ofChars_of_spells {cs : List Char} {i : Instruction} (h : Spells (compact cs) i) :
    Instruction.ofChars cs = .ok i := by
  obtain ⟨c, hc, halpha⟩ := h.head?_isAlpha
  refine (ofChars_eq_ok_iff ?_ ?_ i).2 h
  · rw [hc]
    exact Option.some_ne_none c
  · rw [hc]
    rintro ⟨⟩
    exact absurd halpha (by decide)

theorem ofLine_eq_ok_iff {n : Nat} {text : String} {i : Instruction} :
    Instruction.ofLine n text = .ok i ↔ Instruction.ofChars text.toList = .ok i := by
  unfold Instruction.ofLine
  cases Instruction.ofChars text.toList <;> simp

/-- A fault is reported with the number of the line and its text without blanks. -/
theorem ofLine_of_fault {text : String} {fault : LineFault}
    (h : Instruction.ofChars text.toList = .error fault) (n : Nat) :
    Instruction.ofLine n text
      = .error (.malformed n (String.ofList (compact text.toList)) fault) := by
  unfold Instruction.ofLine
  rw [h]

/-- A line that spells an instruction is read as that instruction. -/
theorem ofLine_of_spells {text : String} {i : Instruction} (h : Spells (compact text.toList) i)
    (n : Nat) : Instruction.ofLine n text = .ok i :=
  ofLine_eq_ok_iff.2 (ofChars_of_spells h)

/-- A line that is neither blank nor a comment is read as just the instruction that its text
spells when all blanks are taken out; if it spells none, the line is reported as malformed. -/
theorem ofLine_reads_grammar {n : Nat} {text : String} (hblank : ∃ c ∈ text.toList, ¬ IsBlank c)
    (hhash : (trimStart text.toList).head? ≠ some '#') :
    (∀ i, Instruction.ofLine n text = .ok i ↔ Spells (compact text.toList) i) ∧
      ((¬ ∃ i, Spells (compact text.toList) i) →
        ∃ e, Instruction.ofLine n text = .error e ∧ e.category = .parse ∧ e.line? = some n) := by
  have hsome : (compact text.toList).head? ≠ none := by
    obtain ⟨c, hc, hblank⟩ := hblank
    have hmem : c ∈ compact text.toList := List.mem_filter.2 ⟨hc, by simpa using hblank⟩
    rw [Ne, List.head?_eq_none_iff]
    exact List.ne_nil_of_mem hmem
  rw [head?_trimStart] at hhash
  have hiff := ofChars_eq_ok_iff hsome hhash
  cases hok : Instruction.ofChars text.toList with
  | ok j =>
    have hline : Instruction.ofLine n text = .ok j := by
      unfold Instruction.ofLine
      rw [hok]
    have hspells : Spells (compact text.toList) j := (hiff j).1 hok
    refine ⟨fun i => ?_, fun hnone => absurd ⟨j, hspells⟩ hnone⟩
    rw [hline, ← hiff i, hok, Except.ok.injEq, Except.ok.injEq]
  | error fault =>
    have hline : Instruction.ofLine n text
        = .error (.malformed n (String.ofList (compact text.toList)) fault) := by
      unfold Instruction.ofLine
      rw [hok]
    refine ⟨fun i => ?_, fun _ => ⟨_, hline, rfl, rfl⟩⟩
    rw [hline, ← hiff i, hok]
    simp

theorem ofLine_reads_grammar_capital_axis :
    (∃ c ∈ "\tcut [0.1]\u00a0[X] [ 7 ]".toList, ¬ IsBlank c) ∧
      (trimStart "\tcut [0.1]\u00a0[X] [ 7 ]".toList).head? ≠ some '#' ∧
      Instruction.ofLine 3 "\tcut [0.1]\u00a0[X] [ 7 ]" = .ok (.verticalCut "0.1" 7) := by
  have hblank : ∃ c ∈ "\tcut [0.1]\u00a0[X] [ 7 ]".toList, ¬ IsBlank c :=
    ⟨'c', by decide, by decide⟩
  have hhash : (trimStart "\tcut [0.1]\u00a0[X] [ 7 ]".toList).head? ≠ some '#' := by decide
  have hid : IsBlockId "0.1" := by
    refine ⟨[Nat.toDigits 10 0, Nat.toDigits 10 1], List.cons_ne_nil _ _, ?_, by decide⟩
    intro ds hds
    simp only [List.mem_cons, List.not_mem_nil, or_false] at hds
    rcases hds with rfl | rfl
    · exact isNumeral_toDigits 0
    · exact isNumeral_toDigits 1
  refine ⟨hblank, hhash, ((ofLine_reads_grammar hblank hhash).1 _).2 ?_⟩
  exact ⟨"cut", _, by decide, .verticalCut hid (.inr rfl) (denotes_toDigits 7)⟩

end Easel
