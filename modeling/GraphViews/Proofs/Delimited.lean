import GraphViews.Text.Quoted
import GraphViews.Text.Written
import Mathlib.Data.List.Basic
/-!
# Texts that show where they end

One text after another is a text that does not say where the first ends. For some ways of writing it can be told all
the same, and with it what was written (`Delimited`): a number goes on as long as there are digits, and a quoted string
up to the first quote that no backslash takes away. A listing of such texts is one again.
-/

namespace GraphViews

/-- A text after a number that does not go on with the number: it does not begin with a digit. -/
def Stops (r : List Char) : Prop := ∀ c ∈ r.head?, c.isDigit = false

@[simp] theorem stops_cons (c : Char) (r : List Char) : Stops (c :: r) ↔ c.isDigit = false := by
  simp [Stops]

/-- What is written, and where its text ends, can be told from any text that begins with it, if what follows stops a
number. No text is empty or begins with a character of `reserved`, so such a character may stand where a text could. -/
structure Delimited {α : Type} (reserved : List Char) (write : α → String) : Prop where
  opens : ∀ x, ∃ c cs, (write x).toList = c :: cs ∧ c ∉ reserved
  unique : ∀ {x y : α} {r r' : List Char}, Stops r → Stops r' →
    (write x).toList ++ r = (write y).toList ++ r' → x = y ∧ r = r'

namespace Delimited

variable {α : Type} {reserved : List Char} {write : α → String}

theorem ne_cons (h : Delimited reserved write) {c : Char} (hc : c ∈ reserved) (x : α) (r s : List Char) :
    (write x).toList ++ r ≠ c :: s := by
  obtain ⟨d, ds, hd, hreserved⟩ := h.opens x
  rw [hd]
  intro hcons
  exact hreserved ((List.cons.inj hcons).1 ▸ hc)

theorem injective (h : Delimited reserved write) {x y : α} (hxy : write x = write y) : x = y := by
  have hnil : Stops [] := by simp [Stops]
  exact (h.unique hnil hnil (by rw [hxy])).1

theorem mono (h : Delimited reserved write) {reserved' : List Char} (hsub : reserved' ⊆ reserved) :
    Delimited reserved' write where
  opens x := by
    obtain ⟨c, cs, hx, hc⟩ := h.opens x
    exact ⟨c, cs, hx, fun hmem => hc (hsub hmem)⟩
  unique := h.unique

end Delimited

/-! ## Numbers -/

/-- Characters of one kind end where one of another kind follows. -/
theorem append_inj_of_kind {p : Char → Bool} {a b r r' : List Char} (ha : ∀ c ∈ a, p c) (hb : ∀ c ∈ b, p c)
    (hr : ∀ c ∈ r.head?, p c = false) (hr' : ∀ c ∈ r'.head?, p c = false) (h : a ++ r = b ++ r') :
    a = b ∧ r = r' := by
  have htake : ∀ {a r : List Char}, (∀ c ∈ a, p c) → (∀ c ∈ r.head?, p c = false) →
      (a ++ r).takeWhile p = a := by
    intro a r ha hr
    rw [List.takeWhile_append_of_pos ha]
    cases r with
    | nil => simp
    | cons c cs => simp [hr c rfl]
  have hab : a = b := by rw [← htake ha hr, h, htake hb hr']
  subst hab
  exact ⟨rfl, List.append_cancel_left h⟩

/-- The sixteen digits are different characters. -/
theorem digitChar_inj {k l : Nat} (hk : k < 16) (hl : l < 16) (h : k.digitChar = l.digitChar) : k = l := by
  have hall : ∀ k l : Fin 16, k.1.digitChar = l.1.digitChar → k = l := by decide
  exact congrArg Fin.val (hall ⟨k, hk⟩ ⟨l, hl⟩ h)

theorem exists_digitChar_of_mem {b n : Nat} (hb : 1 < b) {c : Char} (hc : c ∈ Nat.toDigits b n) :
    ∃ k < b, c = k.digitChar := by
  induction n using Nat.strongRecOn with
  | ind n ih =>
    rw [Nat.toDigits_eq_if hb] at hc
    split at hc
    · exact ⟨n, by assumption, List.mem_singleton.1 hc⟩
    · rcases List.mem_append.1 hc with hc | hc
      · exact ih (n / b) (Nat.div_lt_self (by omega) hb) hc
      · exact ⟨n % b, Nat.mod_lt n (by omega), List.mem_singleton.1 hc⟩

/-- The last digit and the digits before it are those of the remainder and of the quotient. -/
theorem toDigits_inj {b : Nat} (hb : 1 < b) (hb' : b ≤ 16) {m n : Nat} (h : Nat.toDigits b m = Nat.toDigits b n) :
    m = n := by
  induction m using Nat.strongRecOn generalizing n with
  | ind m ih =>
    rw [Nat.toDigits_eq_if hb, Nat.toDigits_eq_if hb (n := n)] at h
    by_cases hm : m < b
    · by_cases hn : n < b
      · rw [if_pos hm, if_pos hn] at h
        exact digitChar_inj (by omega) (by omega) (List.cons.inj h).1
      · rw [if_pos hm, if_neg hn] at h
        have hlen := congrArg List.length h
        simp at hlen
    · by_cases hn : n < b
      · rw [if_neg hm, if_pos hn] at h
        have hlen := congrArg List.length h
        simp at hlen
      · rw [if_neg hm, if_neg hn] at h
        obtain ⟨hquot, hlast⟩ := List.append_inj' h rfl
        have hdiv : m / b = n / b := ih (m / b) (Nat.div_lt_self (by omega) hb) hquot
        have hlt : ∀ k : Nat, k % b < 16 := fun k => Nat.lt_of_lt_of_le (Nat.mod_lt k (by omega)) hb'
        have hmod : m % b = n % b := digitChar_inj (hlt m) (hlt n) (List.cons.inj hlast).1
        rw [← Nat.div_add_mod m b, ← Nat.div_add_mod n b, hdiv, hmod]

theorem isDigit_of_mem_toDigits {n : Nat} {c : Char} (hc : c ∈ Nat.toDigits 10 n) : c.isDigit :=
  Nat.isDigit_of_mem_toDigits (by omega) (by omega) hc

theorem exists_digit (n : Nat) : ∃ c cs, Nat.toDigits 10 n = c :: cs ∧ c.isDigit := by
  obtain ⟨c, cs, hcs⟩ := List.exists_cons_of_ne_nil (Nat.toDigits_ne_nil (n := n) (b := 10))
  exact ⟨c, cs, hcs, isDigit_of_mem_toDigits (n := n) (by simp [hcs])⟩

theorem toDigits_append_inj {m n : Nat} {r r' : List Char} (hr : Stops r) (hr' : Stops r')
    (h : Nat.toDigits 10 m ++ r = Nat.toDigits 10 n ++ r') : m = n ∧ r = r' := by
  obtain ⟨hdigits, hrest⟩ := append_inj_of_kind (fun _ => isDigit_of_mem_toDigits)
    (fun _ => isDigit_of_mem_toDigits) hr hr' h
  exact ⟨toDigits_inj (by omega) (by omega) hdigits, hrest⟩

/-- A number is written as a sign, if it has one, and the digits of its absolute value. -/
theorem toList_toString (n : Int) :
    (toString n).toList = (if n < 0 then ['-'] else []) ++ Nat.toDigits 10 n.natAbs := by
  rw [Int.toString_eq_repr, Int.repr_eq_if]
  by_cases hn : 0 ≤ n
  · have habs : n.toNat = n.natAbs := by omega
    rw [if_pos hn, if_neg (by omega), Nat.toList_repr, habs, List.nil_append]
  · have habs : (-n).toNat = n.natAbs := by omega
    rw [if_neg hn, if_pos (by omega), String.toList_append, Nat.toList_repr, habs]
    rfl

theorem delimited_integer : Delimited ['<', '[', '\x7d', '"'] (fun n : Int => toString n) where
  opens n := by
    rw [toList_toString]
    obtain ⟨c, cs, hcs, hc⟩ := exists_digit n.natAbs
    have hreserved : ∀ d ∈ ['<', '[', '\x7d', '"'], d.isDigit = false := by simp
    by_cases hn : n < 0
    · exact ⟨'-', c :: cs, by rw [if_pos hn, hcs]; rfl, by decide⟩
    · refine ⟨c, cs, by rw [if_neg hn, hcs]; rfl, fun hmem => ?_⟩
      rw [hreserved c hmem] at hc
      exact absurd hc Bool.false_ne_true
  unique {m n r r'} hr hr' h := by
    -- A sign is no digit, so the first character tells a negative number from the others.
    have hsign : ∀ (k : Nat) (s t : List Char), Nat.toDigits 10 k ++ s ≠ '-' :: t := by
      intro k s t hk
      obtain ⟨c, cs, hcs, hc⟩ := exists_digit k
      rw [hcs] at hk
      rw [(List.cons.inj hk).1] at hc
      exact absurd hc (by decide)
    rw [toList_toString, toList_toString] at h
    by_cases hm : m < 0 <;> by_cases hn : n < 0
    · rw [if_pos hm, if_pos hn] at h
      obtain ⟨habs, hrest⟩ := toDigits_append_inj hr hr' (List.cons.inj h).2
      exact ⟨by omega, hrest⟩
    · rw [if_pos hm, if_neg hn] at h
      exact absurd h.symm (hsign _ _ _)
    · rw [if_neg hm, if_pos hn] at h
      exact absurd h (hsign _ _ _)
    · rw [if_neg hm, if_neg hn] at h
      obtain ⟨habs, hrest⟩ := toDigits_append_inj hr hr' h
      exact ⟨by omega, hrest⟩

/-! ## Quoted strings -/

namespace Quoted

variable {byCode : Char → Bool}

/-- Different characters have different marks, and none has the letter that announces a code. -/
theorem mark?_inj {c d m : Char} (hc : mark? c = some m) (hd : mark? d = some m) : c = d := by
  unfold mark? at hc hd
  split at hc <;> cases hc <;> split at hd <;> first | rfl | exact absurd hd (by decide)

theorem mark?_ne_u {c m : Char} (h : mark? c = some m) : m ≠ 'u' := by
  unfold mark? at h
  split at h <;> cases h <;> decide

/-- A quote and a backslash have marks, so they never stand for themselves. -/
theorem ne_of_mark?_eq_none {c : Char} (h : mark? c = none) : c ≠ '"' ∧ c ≠ '\\' := by
  constructor <;> rintro rfl <;> simp [mark?] at h

/-- A character is written by its mark, by its code or as it is. -/
theorem encodeChar_cases (byCode : Char → Bool) (c : Char) :
    (∃ m, mark? c = some m ∧ encodeChar byCode c = ['\\', m]) ∨
    encodeChar byCode c = codeEscape c ∨
    (mark? c = none ∧ encodeChar byCode c = [c]) := by
  unfold encodeChar
  cases hm : mark? c with
  | some m => exact .inl ⟨m, rfl, rfl⟩
  | none => by_cases hc : byCode c <;> simp [hc]

/-- The hexadecimal digits end at the bracket. -/
theorem codeEscape_append_inj {c d : Char} {r r' : List Char} (h : codeEscape c ++ r = codeEscape d ++ r') :
    c = d ∧ r = r' := by
  have hdigits : ∀ n : Nat, ∀ x ∈ Nat.toDigits 16 n, (x != '\x7d') = true := by
    intro n x hx
    obtain ⟨k, -, rfl⟩ := exists_digitChar_of_mem (by omega) hx
    simp
  have hcodes : Nat.toDigits 16 c.toNat ++ '\x7d' :: r = Nat.toDigits 16 d.toNat ++ '\x7d' :: r' := by
    simpa [codeEscape] using h
  obtain ⟨hcd, hrest⟩ := append_inj_of_kind (hdigits _) (hdigits _) (by simp) (by simp) hcodes
  exact ⟨Char.toNat_inj.1 (toDigits_inj (by omega) (by omega) hcd), (List.cons.inj hrest).2⟩

theorem encodeChar_append_inj {c d : Char} {r r' : List Char}
    (h : encodeChar byCode c ++ r = encodeChar byCode d ++ r') : c = d ∧ r = r' := by
  rcases encodeChar_cases byCode c with ⟨m, hm, hc⟩ | hc | ⟨hm, hc⟩ <;>
    rcases encodeChar_cases byCode d with ⟨n, hn, hd⟩ | hd | ⟨hn, hd⟩ <;> rw [hc, hd] at h
  · obtain ⟨hmn, hrest⟩ := List.cons.inj (List.cons.inj h).2
    exact ⟨mark?_inj hm (hmn ▸ hn), hrest⟩
  · exact absurd (List.cons.inj (List.cons.inj h).2).1 (mark?_ne_u hm)
  · exact absurd (List.cons.inj h).1.symm (ne_of_mark?_eq_none hn).2
  · exact absurd (List.cons.inj (List.cons.inj h).2).1.symm (mark?_ne_u hn)
  · exact codeEscape_append_inj h
  · exact absurd (List.cons.inj h).1.symm (ne_of_mark?_eq_none hn).2
  · exact absurd (List.cons.inj h).1 (ne_of_mark?_eq_none hm).2
  · exact absurd (List.cons.inj h).1 (ne_of_mark?_eq_none hm).2
  · exact List.cons.inj h

/-- A quote within the string is never written without a backslash in front. -/
theorem encodeChar_ne_quote (c : Char) (r s : List Char) : encodeChar byCode c ++ r ≠ '"' :: s := by
  intro h
  rcases encodeChar_cases byCode c with ⟨m, -, hc⟩ | hc | ⟨hm, hc⟩ <;> rw [hc] at h
  · exact absurd (List.cons.inj h).1 (by decide)
  · exact absurd (List.cons.inj h).1 (by decide)
  · exact (ne_of_mark?_eq_none hm).1 (List.cons.inj h).1

theorem encode_append_inj {s t r r' : List Char} (h : encode byCode s ++ '"' :: r = encode byCode t ++ '"' :: r') :
    s = t ∧ r = r' := by
  unfold encode at h
  induction s generalizing t with
  | nil =>
    cases t with
    | nil => exact ⟨rfl, (List.cons.inj h).2⟩
    | cons d t =>
      rw [List.flatMap_cons, List.append_assoc] at h
      exact absurd h.symm (encodeChar_ne_quote d _ _)
  | cons c s ih =>
    rw [List.flatMap_cons, List.append_assoc] at h
    cases t with
    | nil => exact absurd h (encodeChar_ne_quote c _ _)
    | cons d t =>
      rw [List.flatMap_cons, List.append_assoc] at h
      obtain ⟨rfl, hrest⟩ := encodeChar_append_inj h
      obtain ⟨rfl, hr⟩ := ih hrest
      exact ⟨rfl, hr⟩

theorem toList_text_append (s : String) (r : List Char) :
    (text byCode s).toList ++ r = '"' :: (encode byCode s.toList ++ '"' :: r) := by
  simp [text]

theorem delimited_text (byCode : Char → Bool) : Delimited ['<', '[', '\x7d'] (text byCode) where
  opens s := ⟨'"', encode byCode s.toList ++ ['"'], by simp [text], by decide⟩
  unique {s t r r'} _ _ h := by
    rw [toList_text_append, toList_text_append] at h
    obtain ⟨hst, hr⟩ := encode_append_inj (List.cons.inj h).2
    exact ⟨String.toList_inj.1 hst, hr⟩

end Quoted

/-! ## Listings -/

/-- The texts after the first, each after a comma and a blank. -/
def afterFirst (ss : List String) : List Char := ss.flatMap fun s => ',' :: ' ' :: s.toList

theorem toList_commaSeparated_cons (s : String) (ss : List String) :
    (commaSeparated (s :: ss)).toList = s.toList ++ afterFirst ss := by
  induction ss generalizing s with
  | nil => simp [commaSeparated, afterFirst]
  | cons t ss ih => simp [commaSeparated, ih, afterFirst]

theorem stops_afterFirst (ss : List String) (r : List Char) : Stops (afterFirst ss ++ '\x7d' :: r) := by
  cases ss <;> simp [afterFirst]

namespace Delimited

variable {α : Type} {reserved : List Char} {write : α → String}

theorem afterFirst_append_inj (h : Delimited reserved write) {xs ys : List α} {r r' : List Char}
    (hxy : afterFirst (xs.map write) ++ '\x7d' :: r = afterFirst (ys.map write) ++ '\x7d' :: r') :
    xs = ys ∧ r = r' := by
  induction xs generalizing ys with
  | nil =>
    cases ys with
    | nil => exact ⟨rfl, (List.cons.inj hxy).2⟩
    | cons y ys => exact absurd (List.cons.inj hxy).1 (by decide)
  | cons x xs ih =>
    cases ys with
    | nil => exact absurd (List.cons.inj hxy).1 (by decide)
    | cons y ys =>
      have hitems : (write x).toList ++ (afterFirst (xs.map write) ++ '\x7d' :: r) =
          (write y).toList ++ (afterFirst (ys.map write) ++ '\x7d' :: r') := by
        simpa [afterFirst] using hxy
      obtain ⟨rfl, hrest⟩ := h.unique (stops_afterFirst _ _) (stops_afterFirst _ _) hitems
      obtain ⟨rfl, hr⟩ := ih hrest
      exact ⟨rfl, hr⟩

/-- The bracket that closes a listing stands where the first item could, but no item begins with it. -/
theorem commaSeparated_append_inj (h : Delimited reserved write) (hclose : '\x7d' ∈ reserved) {xs ys : List α}
    {r r' : List Char} (hxy : (commaSeparated (xs.map write)).toList ++ '\x7d' :: r =
      (commaSeparated (ys.map write)).toList ++ '\x7d' :: r') : xs = ys ∧ r = r' := by
  have hcons : ∀ (x : α) (xs : List α) (s : List Char), (commaSeparated ((x :: xs).map write)).toList ++ s =
      (write x).toList ++ (afterFirst (xs.map write) ++ s) := by
    intro x xs s
    rw [List.map_cons, toList_commaSeparated_cons, List.append_assoc]
  cases xs with
  | nil =>
    cases ys with
    | nil => exact ⟨rfl, (List.cons.inj hxy).2⟩
    | cons y ys =>
      rw [hcons] at hxy
      exact absurd hxy.symm (h.ne_cons hclose y _ _)
  | cons x xs =>
    rw [hcons] at hxy
    cases ys with
    | nil => exact absurd hxy (h.ne_cons hclose x _ _)
    | cons y ys =>
      rw [hcons] at hxy
      obtain ⟨rfl, hrest⟩ := h.unique (stops_afterFirst _ _) (stops_afterFirst _ _) hxy
      obtain ⟨rfl, hr⟩ := h.afterFirst_append_inj hrest
      exact ⟨rfl, hr⟩

end Delimited

theorem toList_quotedListing_append {α : Type} [Written α] (xs : List α) (r : List Char) :
    (quotedListing xs).toList ++ r =
      '\x7b' :: ((commaSeparated (xs.map Written.quoted)).toList ++ '\x7d' :: r) := by
  simp [quotedListing]

theorem Delimited.quotedListing {α : Type} [Written α] {reserved : List Char}
    (h : Delimited reserved (Written.quoted : α → String)) (hclose : '\x7d' ∈ reserved) :
    Delimited ['\x7d'] (quotedListing : List α → String) where
  opens xs := ⟨'\x7b', (commaSeparated (xs.map Written.quoted)).toList ++ ['\x7d'], by
    simpa using toList_quotedListing_append xs [], by decide⟩
  unique {xs ys r r'} _ _ hxy := by
    rw [toList_quotedListing_append, toList_quotedListing_append] at hxy
    exact h.commaSeparated_append_inj hclose (List.cons.inj hxy).2

end GraphViews
