/-
How values are read.

What stands for a value is read as this value, whatever stands behind it, as long as that
does not lengthen a number.  This is put together from the parts of a value: the words,
numbers and strings, and the rows of items and of members with the blanks between them.  The
fuel of the reader is enough if it is twice the number of characters.

* `Json.Spelling`, `Json.Spells` — how the characters of a string are written, and how they
  are read;
* `Json.Reads`, `Json.ReadsItems`, `Json.ReadsMembers` — characters that stand for a value,
  for the items of an array up to its end and for the members of an object up to its end;
* `Json.Reads.number`, `Json.Reads.string`, `Json.Reads.array`, `Json.Reads.object` — the
  ways to write a value;
* **`Json.Reads.readWith`** — a text that is a value between blanks is read as this value;
* `Json.Reads.half?_eq_none` — and no half of a surrogate pair is in it;
* `Json.read_quoted_iff` — a text between quotes is read as itself just if each of its
  characters stands for itself.
-/
import Cadence.Json.Half
import Cadence.Proofs.Json.Number
import Cadence.Proofs.Validation.Checked

namespace Cadence.Json

open Text

/-! ### Strings -/

/-- A character that stands for itself inside a string. -/
def IsPlain (c : Char) : Prop := c ≠ '"' ∧ c ≠ '\\' ∧ 0x20 ≤ c.toNat

instance (c : Char) : Decidable (IsPlain c) := inferInstanceAs (Decidable (_ ∧ _ ∧ _))

/-- The ways to write a character inside a string: by itself, by a one-letter escape, by its
code, or by two codes that form a surrogate pair. Half of such a pair alone is no
character. -/
inductive Spelling : List Char → Char → Prop
  | plain {c : Char} (h : IsPlain c) : Spelling [c] c
  | escape {c d : Char} (h : escaped? c = some d) : Spelling ['\\', c] d
  | code {digits : List Char} {n : Nat} (length : digits.length = 4)
    (hex : hexNumber? 4 digits = some n)
    (alone : n < 0xd800 ∨ 0xdfff < n) : Spelling ('\\' :: 'u' :: digits) (Char.ofNat n)
  | pair {digits digits' : List Char} {high low : Nat} (length : digits.length = 4)
    (length' : digits'.length = 4)
    (hex : hexNumber? 4 digits = some high) (hex' : hexNumber? 4 digits' = some low)
    (first : 0xd800 ≤ high ∧ high ≤ 0xdbff) (second : 0xdc00 ≤ low ∧ low ≤ 0xdfff) :
    Spelling ('\\' :: 'u' :: (digits ++ '\\' :: 'u' :: digits'))
      (Char.ofNat (0x10000 + (high - 0xd800) * 0x400 + (low - 0xdc00)))

/-- In front of the rest of a string the characters stand for those given. -/
def Spells (cs ds : List Char) : Prop :=
  ∀ half opening rest ds' after, readString half opening rest = .ok (ds', after) →
    readString half opening (cs ++ rest) = .ok (ds ++ ds', after)

variable {half : Nat → Char}

theorem hexNumber?_append {n : Nat} {digits : List Char} (h : digits.length = n)
    (rest : List Char) :
    hexNumber? n (digits ++ rest) = hexNumber? n digits := by
  unfold hexNumber?
  rw [List.take_append_of_le_length (Nat.le_of_eq h.symm),
    List.take_of_length_le (Nat.le_of_eq h), List.length_append]
  simp [h]

theorem ne_nil_of_readString {opening : Nat} {rest : List Char} {x : List Char × List Char}
    (h : readString half opening rest = .ok x) : rest ≠ [] := by
  rintro rfl
  rw [readString] at h
  cases h

theorem readCode_alone {digits rest : List Char} {n : Nat} (length : digits.length = 4)
    (hex : hexNumber? 4 digits = some n) (alone : n < 0xd800 ∨ 0xdfff < n) (hrest : rest ≠ []) :
    readCode half (digits ++ rest) = .ok (Char.ofNat n, 4) := by
  have hdrop : (digits ++ rest).drop 4 = rest := List.drop_left' length
  have hchar : charOfCode half n = Char.ofNat n := by
    unfold charOfCode
    rw [if_neg (by simp [isHalf]; omega)]
  rw [readCode, hexNumber?_append length, hex]
  dsimp only
  rw [hdrop, if_neg (by simpa using hrest), if_neg (by simp; omega), hchar]

theorem readCode_pair {digits digits' rest : List Char} {high low : Nat}
    (length : digits.length = 4) (length' : digits'.length = 4)
    (hex : hexNumber? 4 digits = some high) (hex' : hexNumber? 4 digits' = some low)
    (first : 0xd800 ≤ high ∧ high ≤ 0xdbff) (second : 0xdc00 ≤ low ∧ low ≤ 0xdfff)
    (hrest : rest ≠ []) :
    readCode half (digits ++ '\\' :: 'u' :: (digits' ++ rest)) =
      .ok (Char.ofNat (0x10000 + (high - 0xd800) * 0x400 + (low - 0xdc00)), 10) := by
  have hdrop : (digits ++ '\\' :: 'u' :: (digits' ++ rest)).drop 4 = '\\' :: 'u' ::
      (digits' ++ rest) :=
    List.drop_left' length
  have hmore : 6 < ('\\' :: 'u' :: (digits' ++ rest)).length := by
    have := List.length_pos_iff.mpr hrest
    simp [length']
    omega
  rw [readCode, hexNumber?_append length, hex]
  dsimp only
  rw [hdrop, if_neg (by simp), if_pos (by simp [first, length']; simpa [length'] using hmore)]
  have hlow : hexNumber? 4 (('\\' :: 'u' :: (digits' ++ rest)).drop 2) = some low :=
    (hexNumber?_append length' rest).trans hex'
  rw [hlow]
  dsimp only
  rw [if_pos (by simp [second])]

theorem readEscape_letter {opening : Nat} {c d : Char} (h : escaped? c = some d)
    (rest : List Char) :
    readEscape half opening (c :: rest) = .ok (d, 1) := by
  unfold readEscape
  split
  · next heq => cases heq
  · next heq =>
    obtain rfl := (List.cons.inj heq).1
    cases h
  · next heq =>
    obtain ⟨rfl, rfl⟩ := List.cons.inj heq
    rw [h]

/-- A string goes on behind an escape. -/
theorem readString_escape {opening n : Nat} {cs rest ds' after : List Char} {d : Char}
    (hescape : readEscape half opening cs = .ok (d, n)) (hused : cs.drop n = rest)
    (hrest : readString half opening rest = .ok (ds', after)) :
    readString half opening ('\\' :: cs) = .ok (d :: ds', after) := by
  rw [readString, if_neg (by decide), if_pos rfl, hescape]
  show (readString half opening (cs.drop n) >>= _) = _
  rw [hused, hrest]
  rfl

/-- **A character is read however it is written.** -/
theorem Spelling.spells {cs : List Char} {d : Char} (h : Spelling cs d) : Spells cs [d] := by
  intro half opening rest ds' after hrest
  have hne := ne_nil_of_readString hrest
  cases h with
  | plain h =>
    obtain ⟨hquote, hbackslash, hcontrol⟩ := h
    rw [List.singleton_append, readString, if_neg hquote, if_neg hbackslash,
      if_neg (Nat.not_lt.mpr hcontrol), hrest]
    rfl
  | escape h => exact readString_escape (readEscape_letter h rest) rfl hrest
  | code length hex alone =>
    refine readString_escape (n := 5) ?_ ?_ hrest
    · show (readCode half (_ ++ rest)).map _ = _
      rw [readCode_alone length hex alone hne]
      rfl
    · show ('u' :: _ ++ rest).drop 5 = rest
      exact List.drop_left' (congrArg Nat.succ length)
  | @pair digits digits' _ _ length length' hex hex' first second =>
    rw [List.cons_append, List.cons_append, List.append_assoc, List.cons_append, List.cons_append]
    refine readString_escape (n := 11) ?_ ?_ hrest
    · show (readCode half _).map _ = _
      rw [readCode_pair length length' hex hex' first second hne]
      rfl
    · have hsplit : 'u' :: (digits ++ '\\' :: 'u' :: (digits' ++ rest)) =
          ('u' :: (digits ++ '\\' :: 'u' :: digits')) ++ rest := by simp
      rw [hsplit]
      exact List.drop_left' (by simp [length, length'])

namespace Spells

variable {cs cs' ds ds' : List Char}

theorem nil : Spells [] [] := fun _ _ _ _ _ h => h

theorem append (h : Spells cs ds) (h' : Spells cs' ds') : Spells (cs ++ cs') (ds ++ ds') := by
  intro half opening rest more after hrest
  rw [List.append_assoc, List.append_assoc]
  exact h half opening _ _ after (h' half opening rest more after hrest)

/-- Characters that stand for themselves. -/
theorem plain (h : ∀ c ∈ cs, IsPlain c) : Spells cs cs := by
  induction cs with
  | nil => exact .nil
  | cons c cs ih =>
    obtain ⟨hc, hcs⟩ := List.forall_mem_cons.mp h
    exact (Spelling.plain hc).spells.append (ih hcs)

/-- A row of characters, each written in its way. -/
theorem flatMap {α : Type} {written meant : α → List Char} {xs : List α}
    (h : ∀ x ∈ xs, Spells (written x) (meant x)) :
    Spells (xs.flatMap written) (xs.flatMap meant) := by
  induction xs with
  | nil => exact .nil
  | cons x xs ih =>
    obtain ⟨hx, hxs⟩ := List.forall_mem_cons.mp h
    exact hx.append (ih hxs)

/-- A string ends at its closing quote. -/
theorem readString (h : Spells cs ds) (opening : Nat) (rest : List Char) :
    Json.readString half opening (cs ++ '"' :: rest) = .ok (ds, rest) := by
  have hclosed : Json.readString half opening ('"' :: rest) = .ok ([], rest) := by
    rw [Json.readString, if_pos rfl]
  have hread := h half opening _ _ _ hclosed
  rwa [List.append_nil] at hread

end Spells

theorem used_pos {opening used : Nat} {cs : List Char} {d : Char}
    (h : readEscape half opening cs = .ok (d, used)) :
    0 < used := by
  unfold readEscape at h
  split at h
  · cases h
  · next rest =>
    cases hcode : readCode half rest with
    | error e =>
      rw [hcode] at h
      cases h
    | ok x =>
      rw [hcode] at h
      obtain ⟨-, rfl⟩ := Prod.mk.inj (Except.ok.inj h)
      exact Nat.succ_pos _
  · split at h
    · obtain ⟨-, rfl⟩ := Prod.mk.inj (Except.ok.inj h)
      exact Nat.one_pos
    · cases h

/-- Each character of a string is written with at least one character, and with just one
only if it stands for itself. -/
theorem length_readString {opening : Nat} {cs ds after : List Char}
    (h : readString half opening cs = .ok (ds, after)) :
    ds.length + after.length < cs.length ∧
      (ds.length + after.length + 1 = cs.length → ∀ c ∈ ds, IsPlain c) := by
  fun_induction readString half opening cs generalizing ds after with
  | case1 => cases h
  | case2 rest =>
    obtain ⟨rfl, rfl⟩ := Prod.mk.inj (Except.ok.inj h)
    exact ⟨by simp, fun _ _ hmem => absurd hmem List.not_mem_nil⟩
  | case3 rest hquote ih =>
    obtain ⟨⟨d, used⟩, hescape, h⟩ := bind_eq_ok.mp h
    obtain ⟨⟨ds', after'⟩, hrest, h⟩ := bind_eq_ok.mp h
    obtain ⟨rfl, rfl⟩ := Prod.mk.inj (Except.ok.inj h)
    have hused := used_pos hescape
    obtain ⟨hlength, -⟩ := ih _ hrest
    rw [List.length_drop] at hlength
    simp only [List.length_cons]
    exact ⟨by omega, fun heq => by omega⟩
  | case4 => cases h
  | case5 c rest hquote hbackslash hcontrol ih =>
    obtain ⟨⟨ds', after'⟩, hrest, h⟩ := bind_eq_ok.mp h
    obtain ⟨rfl, rfl⟩ := Prod.mk.inj (Except.ok.inj h)
    obtain ⟨hlength, hplain⟩ := ih hrest
    simp only [List.length_cons]
    refine ⟨by omega, fun heq =>
      List.forall_mem_cons.mpr ⟨⟨hquote, hbackslash, Nat.not_lt.mp hcontrol⟩, ?_⟩⟩
    exact hplain (by omega)

/-- Characters that are read as themselves stand for themselves. -/
theorem forall_isPlain_of_readString {opening : Nat} {cs after : List Char}
    (h : readString half opening (cs ++ ['"']) = .ok (cs, after)) : ∀ c ∈ cs, IsPlain c := by
  obtain ⟨hlength, hplain⟩ := length_readString h
  rw [List.length_append, List.length_singleton] at hlength hplain
  exact hplain (by omega)

/-! ### Blanks -/

/-- A row of blanks. -/
def IsBlanks (cs : List Char) : Prop := ∀ c ∈ cs, isJsonBlank c = true

theorem isBlanks_nil : IsBlanks [] := fun _ h => absurd h List.not_mem_nil

/-- Blanks are skipped up to the first character that is none. -/
theorem skipBlanks_append {blanks cs : List Char} (hblanks : IsBlanks blanks)
    (hcs : ∀ c ∈ cs.head?, isJsonBlank c = false) : skipBlanks (blanks ++ cs) = cs := by
  rw [skipBlanks, List.dropWhile_append_of_pos hblanks]
  cases cs with
  | nil => rfl
  | cons c cs => rw [List.dropWhile_cons, hcs c rfl, if_neg Bool.false_ne_true]

theorem not_numeric_of_blank {c : Char} (h : isJsonBlank c = true) :
    isAsciiDigit c = false ∧ c ≠ '.' ∧ c ≠ 'e' ∧ c ≠ 'E' := by
  simp only [isJsonBlank, Bool.or_eq_true, beq_iff_eq] at h
  rcases h with ((rfl | rfl) | rfl) | rfl <;> decide

/-- Blanks, and a character that ends a number, may follow one. -/
theorem follows_blanks {blanks rest : List Char} {c : Char} (hblanks : IsBlanks blanks)
    (hc : isAsciiDigit c = false ∧ c ≠ '.' ∧ c ≠ 'e' ∧ c ≠ 'E') :
    Follows (blanks ++ c :: rest) := by
  cases blanks with
  | nil =>
    rintro d ⟨⟩
    exact hc
  | cons b blanks =>
    rintro d ⟨⟩
    exact not_numeric_of_blank (hblanks b List.mem_cons_self)

/-! ### Values -/

/-- The characters begin with one that can begin a value: it is no blank, closes no array
and is no byte order mark. -/
def Begins (cs : List Char) : Prop :=
  ∃ c rest, cs = c :: rest ∧ isJsonBlank c = false ∧ c ≠ ']' ∧ c ≠ '\ufeff'

namespace Begins

variable {cs : List Char}

theorem append (h : Begins cs) (rest : List Char) : Begins (cs ++ rest) := by
  obtain ⟨c, cs, rfl, hc⟩ := h
  exact ⟨c, cs ++ rest, rfl, hc⟩

theorem noBlank (h : Begins cs) : ∀ c ∈ cs.head?, isJsonBlank c = false := by
  obtain ⟨c, cs, rfl, hc, -⟩ := h
  rintro d ⟨⟩
  exact hc

theorem length_pos (h : Begins cs) : 0 < cs.length := by
  obtain ⟨c, cs, rfl, -⟩ := h
  exact Nat.succ_pos _

end Begins

/-- The characters stand for a value: whatever may follow a number follows them, they are
read as this value, unless an integer in them is too long. -/
structure Reads (cs : List Char) (short : Bool) (v : Json) : Prop where
  begins : Begins cs
  reads : ∀ half fuel rest, 2 * cs.length ≤ fuel + 1 → Follows rest →
    Yields short (v, rest) (readValue half fuel (cs ++ rest))

/-- The characters stand for the items of an array, with its closing bracket. -/
structure ReadsItems (cs : List Char) (short : Bool) (vs : List Json) : Prop where
  begins : Begins cs
  reads : ∀ half fuel rest, 2 * cs.length ≤ fuel →
    Yields short (vs, rest) (readItems half fuel (cs ++ rest))

/-- The characters stand for the members of an object, with its closing brace. -/
structure ReadsMembers (cs : List Char) (short : Bool) (ms : List (String × Json)) : Prop where
  head : ∃ rest, cs = '"' :: rest
  reads : ∀ half fuel known rest, 2 * cs.length ≤ fuel →
    Yields short (ms.foldl (fun known (n, v) => put n v known) known, rest)
      (readMembers half fuel known (cs ++ rest))

namespace Reads

variable {cs : List Char} {short : Bool} {v : Json}

/-- A value that is read by looking at its first characters. -/
theorem of_value (begins : Begins cs)
    (h : ∀ half fuel rest, Follows rest →
      Yields short (v, rest) (readValue half (fuel + 1) (cs ++ rest))) :
    Reads cs short v where
  begins := begins
  reads := by
    intro half fuel rest hfuel hrest
    have hpos := begins.length_pos
    obtain ⟨fuel, rfl⟩ : ∃ more, fuel = more + 1 := ⟨fuel - 1, by omega⟩
    exact h half fuel rest hrest

theorem null : Reads (chars .null) true .null :=
  of_value ⟨'n', _, rfl, by decide, by decide, by decide⟩ fun _ _ _ _ => rfl

theorem bool (b : Bool) : Reads (chars (.bool b)) true (.bool b) := by
  cases b with
  | true => exact of_value ⟨'t', _, rfl, by decide, by decide, by decide⟩ fun _ _ _ _ => rfl
  | false => exact of_value ⟨'f', _, rfl, by decide, by decide, by decide⟩ fun _ _ _ _ => rfl

/-- **A string is read as the characters that it spells.** -/
theorem string {ds : List Char} (h : Spells cs ds) :
    Reads ('"' :: (cs ++ ['"'])) true (.str (String.ofList ds)) := by
  refine of_value ⟨'"', _, rfl, by decide, by decide, by decide⟩ fun half fuel rest _ => ?_
  have hclosed : cs ++ ['"'] ++ rest = cs ++ '"' :: rest := by simp
  rw [List.cons_append, hclosed]
  simp only [readValue]
  rw [h.readString]
  rfl

/-- No word begins with a digit, and no word has one behind a minus sign. -/
theorem readLiteral_number (n : Number) (rest : List Char) :
    readLiteral (n.chars ++ rest) = none := by
  obtain ⟨c, cs, hcs⟩ := List.exists_cons_of_ne_nil n.isDigits_whole.1
  have hc : isAsciiDigit c = true := n.isDigits_whole.2 c (hcs ▸ List.mem_cons_self)
  have hne (d : Char) (hd : isAsciiDigit d = false) : (d == c) = false := by
    rw [beq_eq_false_iff_ne]
    rintro rfl
    cases hd.symm.trans hc
  have hn := hne 'n' (by decide)
  have ht := hne 't' (by decide)
  have hf := hne 'f' (by decide)
  have hN := hne 'N' (by decide)
  have hI := hne 'I' (by decide)
  have hminus := hne '-' (by decide)
  unfold Number.chars
  rw [hcs]
  cases n.negative <;> simp [readLiteral, literals, List.isPrefixOf, hn, ht, hf, hN, hI, hminus]

/-- **A number is read as what it stands for, unless it is an integer that is too long.** -/
theorem number (n : Number) : Reads n.chars n.isShort n.value := by
  have hhead : ∃ c rest, n.chars = c :: rest ∧ (c = '-' ∨ isAsciiDigit c = true) := by
    obtain ⟨c, cs, hcs⟩ := List.exists_cons_of_ne_nil n.isDigits_whole.1
    have hc : isAsciiDigit c = true := n.isDigits_whole.2 c (hcs ▸ List.mem_cons_self)
    unfold Number.chars
    rw [hcs]
    cases n.negative with
    | true => exact ⟨'-', _, rfl, Or.inl rfl⟩
    | false => exact ⟨c, _, rfl, Or.inr hc⟩
  obtain ⟨c, cs, hcs, hc⟩ := hhead
  have hother (d : Char) (hminus : d ≠ '-') (hd : isAsciiDigit d = false) : c ≠ d := by
    rintro rfl
    rcases hc with h | h
    · exact hminus h
    · cases hd.symm.trans h
  have hblank : isJsonBlank c = false := by
    have hspace := hother ' ' (by decide) (by decide)
    have htab := hother '\t' (by decide) (by decide)
    have hline := hother '\n' (by decide) (by decide)
    have hreturn := hother '\r' (by decide) (by decide)
    simp [isJsonBlank, hspace, htab, hline, hreturn]
  have hbegins : Begins n.chars :=
    ⟨c, cs, hcs, hblank, hother ']' (by decide) (by decide),
      hother '\ufeff' (by decide) (by decide)⟩
  refine of_value hbegins fun half fuel rest hrest => ?_
  obtain ⟨result, hresult, hyields⟩ := readNumber_chars n hrest
  have hword := readLiteral_number n rest
  rw [hcs] at hresult hword ⊢
  have hquote := hother '"' (by decide) (by decide)
  have hbrace := hother '\x7b' (by decide) (by decide)
  have hbracket := hother '[' (by decide) (by decide)
  have hvalue : readValue half (fuel + 1) (c :: cs ++ rest) = result := by
    rw [List.cons_append] at hresult hword ⊢
    unfold readValue
    split
    · next heq => exact absurd (List.cons.inj heq).1 hquote
    · next heq => exact absurd (List.cons.inj heq).1 hbrace
    · next heq => exact absurd (List.cons.inj heq).1 hbracket
    · rw [hword, hresult]
      rfl
  rw [hvalue]
  exact hyields

end Reads

/-! ### Arrays -/

section

variable {cs cs' b b' : List Char} {short short' : Bool} {v : Json} {vs : List Json}

/-- The last item of an array. -/
theorem ReadsItems.last (hv : Reads cs short v) (hb : IsBlanks b) :
    ReadsItems (cs ++ (b ++ [']'])) short [v] where
  begins := hv.begins.append _
  reads := by
    intro half fuel rest hfuel
    simp only [List.length_append, List.length_singleton] at hfuel
    obtain ⟨fuel, rfl⟩ : ∃ more, fuel = more + 1 := ⟨fuel - 1, by omega⟩
    have hsplit : cs ++ (b ++ [']']) ++ rest = cs ++ (b ++ ']' :: rest) := by simp
    rw [hsplit, readItems]
    refine (hv.reads half fuel _ (by omega) (follows_blanks hb (by decide))).bind_ok ?_
    dsimp only
    rw [skipBlanks_append hb (by rintro c ⟨⟩; decide)]
    rfl

/-- An item of an array before others. -/
theorem ReadsItems.more (hv : Reads cs short v) (hb : IsBlanks b) (hb' : IsBlanks b')
    (hvs : ReadsItems cs' short' vs) :
    ReadsItems (cs ++ (b ++ ',' :: (b' ++ cs'))) (short && short') (v :: vs) where
  begins := hv.begins.append _
  reads := by
    intro half fuel rest hfuel
    simp only [List.length_append, List.length_cons] at hfuel
    obtain ⟨fuel, rfl⟩ : ∃ more, fuel = more + 1 := ⟨fuel - 1, by omega⟩
    have hsplit : cs ++ (b ++ ',' :: (b' ++ cs')) ++ rest = cs ++
        (b ++ ',' :: (b' ++ (cs' ++ rest))) := by simp
    have hpos := hv.begins.length_pos
    rw [hsplit, readItems]
    refine (hv.reads half fuel _ (by omega) (follows_blanks hb (by decide))).bind ?_
    dsimp only
    rw [skipBlanks_append hb (by rintro c ⟨⟩; decide)]
    show Yields short' _ (readItems half fuel (skipBlanks (b' ++ (cs' ++ rest))) >>= _)
    rw [skipBlanks_append hb' (hvs.begins.append rest).noBlank]
    exact (hvs.reads half fuel rest (by omega)).bind_ok rfl

/-- The empty array. -/
theorem Reads.emptyArray (hb : IsBlanks b) : Reads ('[' :: (b ++ [']'])) true (.arr []) := by
  refine .of_value ⟨'[', _, rfl, by decide, by decide, by decide⟩ fun half fuel rest _ => ?_
  have hsplit : '[' :: (b ++ [']']) ++ rest = '[' :: (b ++ ']' :: rest) := by simp
  rw [hsplit]
  simp only [readValue]
  rw [skipBlanks_append hb (by rintro c ⟨⟩; decide)]
  exact .ok _

/-- **An array is read item by item.** -/
theorem Reads.array (hb : IsBlanks b) (hvs : ReadsItems cs short vs) :
    Reads ('[' :: (b ++ cs)) short (.arr vs) where
  begins := ⟨'[', _, rfl, by decide, by decide, by decide⟩
  reads := by
    intro half fuel rest hfuel _
    simp only [List.length_append, List.length_cons] at hfuel
    obtain ⟨fuel, rfl⟩ : ∃ more, fuel = more + 1 := ⟨fuel - 1, by omega⟩
    obtain ⟨c, ds, hc, -, hbracket, -⟩ := hvs.begins.append rest
    have hread := (hvs.reads half fuel rest (by omega)).map fun p : List Json × List Char =>
      (Json.arr p.1, p.2)
    rw [List.cons_append, List.append_assoc]
    simp only [readValue]
    rw [skipBlanks_append hb (hvs.begins.append rest).noBlank]
    rw [hc] at hread ⊢
    split
    · next heq => exact absurd (List.cons.inj heq).1 hbracket
    · exact hread

end

/-! ### Objects -/

section

variable {cs cs' cs'' ds b₁ b₂ b₃ b₄ : List Char} {short short' : Bool} {v : Json}
  {ms : List (String × Json)}

/-- A name and a colon are read, and then the value. -/
theorem readMembers_name (hname : Spells cs ds) (hb₁ : IsBlanks b₁) (hb₂ : IsBlanks b₂)
    (hcs' : ∀ c ∈ cs'.head?, isJsonBlank c = false) (fuel : Nat) (known : List (String × Json)) :
    readMembers half (fuel + 1) known ('"' :: (cs ++ '"' :: (b₁ ++ ':' :: (b₂ ++ cs')))) = (do
      let (v, rest) ← readValue half fuel cs'
      let known := put (String.ofList ds) v known
      match skipBlanks rest with
      | '\x7d' :: after => .ok (known, after)
      | ',' :: rest => readMembers half fuel known (skipBlanks rest)
      | rest => .error (.fault .noComma rest.length)) := by
  rw [readMembers]
  dsimp only
  rw [hname.readString, ok_bind]
  dsimp only
  rw [skipBlanks_append hb₁ (by rintro c ⟨⟩; decide)]
  exact congrArg (readValue half fuel · >>= _) (skipBlanks_append hb₂ hcs')

/-- The last member of an object. -/
theorem ReadsMembers.last (hname : Spells cs ds) (hb₁ : IsBlanks b₁) (hb₂ : IsBlanks b₂)
    (hv : Reads cs' short v) (hb₃ : IsBlanks b₃) :
    ReadsMembers ('"' :: (cs ++ '"' :: (b₁ ++ ':' :: (b₂ ++ (cs' ++ (b₃ ++ ['\x7d'])))))) short
      [(String.ofList ds, v)] where
  head := ⟨_, rfl⟩
  reads := by
    intro half fuel known rest hfuel
    simp only [List.length_append, List.length_cons] at hfuel
    obtain ⟨fuel, rfl⟩ : ∃ more, fuel = more + 1 := ⟨fuel - 1, by omega⟩
    have hsplit : '"' :: (cs ++ '"' :: (b₁ ++ ':' :: (b₂ ++ (cs' ++ (b₃ ++ ['\x7d']))))) ++ rest =
        '"' :: (cs ++ '"' :: (b₁ ++ ':' :: (b₂ ++ (cs' ++ (b₃ ++ '\x7d' :: rest))))) := by simp
    rw [hsplit, readMembers_name hname hb₁ hb₂ (hv.begins.append _).noBlank]
    refine (hv.reads half fuel _ (by omega) (follows_blanks hb₃ (by decide))).bind_ok ?_
    dsimp only
    rw [skipBlanks_append hb₃ (by rintro c ⟨⟩; decide)]
    rfl

/-- A member of an object before others. -/
theorem ReadsMembers.more (hname : Spells cs ds) (hb₁ : IsBlanks b₁) (hb₂ : IsBlanks b₂)
    (hv : Reads cs' short v) (hb₃ : IsBlanks b₃) (hb₄ : IsBlanks b₄)
    (hms : ReadsMembers cs'' short' ms) :
    ReadsMembers ('"' :: (cs ++ '"' :: (b₁ ++ ':' :: (b₂ ++ (cs' ++ (b₃ ++ ',' :: (b₄ ++ cs'')))))))
      (short && short')
      ((String.ofList ds, v) :: ms) where
  head := ⟨_, rfl⟩
  reads := by
    intro half fuel known rest hfuel
    simp only [List.length_append, List.length_cons] at hfuel
    obtain ⟨fuel, rfl⟩ : ∃ more, fuel = more + 1 := ⟨fuel - 1, by omega⟩
    have hsplit : '"' ::
        (cs ++ '"' :: (b₁ ++ ':' :: (b₂ ++ (cs' ++ (b₃ ++ ',' :: (b₄ ++ cs'')))))) ++ rest =
        '"' :: (cs ++ '"' ::
          (b₁ ++ ':' :: (b₂ ++ (cs' ++ (b₃ ++ ',' :: (b₄ ++ (cs'' ++ rest))))))) := by simp
    have hquote : ∀ c ∈ (cs'' ++ rest).head?, isJsonBlank c = false := by
      obtain ⟨more, rfl⟩ := hms.head
      rintro c ⟨⟩
      decide
    rw [hsplit, readMembers_name hname hb₁ hb₂ (hv.begins.append _).noBlank]
    refine (hv.reads half fuel _ (by omega) (follows_blanks hb₃ (by decide))).bind ?_
    dsimp only
    rw [skipBlanks_append hb₃ (by rintro c ⟨⟩; decide)]
    show Yields short' _ (readMembers half fuel _ (skipBlanks (b₄ ++ (cs'' ++ rest))))
    rw [skipBlanks_append hb₄ hquote]
    exact hms.reads half fuel _ rest (by omega)

/-- The empty object. -/
theorem Reads.emptyObject (hb : IsBlanks b₁) :
    Reads ('\x7b' :: (b₁ ++ ['\x7d'])) true (.obj []) := by
  refine .of_value ⟨'\x7b', _, rfl, by decide, by decide, by decide⟩ fun half fuel rest _ => ?_
  have hsplit : '\x7b' :: (b₁ ++ ['\x7d']) ++ rest = '\x7b' :: (b₁ ++ '\x7d' :: rest) := by simp
  rw [hsplit]
  simp only [readValue]
  rw [skipBlanks_append hb (by rintro c ⟨⟩; decide)]
  exact .ok _

/-- **An object is read member by member**; where a name is repeated, the first place and
the last value count. -/
theorem Reads.object (hb : IsBlanks b₁) (hms : ReadsMembers cs short ms) :
    Reads ('\x7b' :: (b₁ ++ cs)) short (object ms) where
  begins := ⟨'\x7b', _, rfl, by decide, by decide, by decide⟩
  reads := by
    intro half fuel rest hfuel _
    simp only [List.length_append, List.length_cons] at hfuel
    obtain ⟨fuel, rfl⟩ : ∃ more, fuel = more + 1 := ⟨fuel - 1, by omega⟩
    obtain ⟨more, rfl⟩ := hms.head
    have hread := (hms.reads half fuel [] rest (by omega)).map
      fun p : List (String × Json) × List Char => (Json.obj p.1, p.2)
    rw [List.cons_append, List.append_assoc]
    simp only [readValue]
    rw [skipBlanks_append hb (by rintro c ⟨⟩; decide)]
    exact hread

end

/-! ### Whole texts -/

theorem Reads.readAll {cs before after : List Char} {short : Bool} {v : Json} (h : Reads cs short v)
    (half : Nat → Char) (hbefore : IsBlanks before) (hafter : IsBlanks after) :
    Yields short v (Json.readAll half (before ++ (cs ++ after))) := by
  have hhead : (before ++ (cs ++ after)).head? ≠ some '\ufeff' := by
    cases before with
    | nil =>
      obtain ⟨c, ds, rfl, -, -, hmark⟩ := h.begins
      exact fun hc => hmark (Option.some.inj hc)
    | cons b before =>
      intro hb
      obtain rfl := Option.some.inj hb
      exact absurd (hbefore _ List.mem_cons_self) (by decide)
  have hend : Follows after :=
    fun c hc => not_numeric_of_blank (hafter c (List.mem_of_mem_head? hc))
  rw [Json.readAll, if_neg (by simpa using hhead),
    skipBlanks_append hbefore (h.begins.append after).noBlank]
  refine (h.reads half _ after (by simp; omega) hend).bind_ok ?_
  dsimp only
  rw [← List.append_nil after, skipBlanks_append hafter (by simp)]
  rfl

/-- **A text that is a value between blanks is read as this value**, unless an integer in it
is too long. -/
theorem Reads.readWith {cs before after : List Char} {short : Bool} {v : Json}
    (h : Reads cs short v) (half : Nat → Char) (hbefore : IsBlanks before)
    (hafter : IsBlanks after) {s : String} (hs : s.toList = before ++ (cs ++ after)) :
    if short then Json.readWith half s = .ok v else ∃ digits, Json.readWith half s =
      .error (.tooLong digits) := by
  have hread := h.readAll half hbefore hafter
  rw [Json.readWith, hs]
  cases short with
  | true =>
    have hok : Json.readAll half (before ++ (cs ++ after)) = .ok v := hread
    rw [hok]
    rfl
  | false =>
    obtain ⟨digits, hlong⟩ : ∃ digits, Json.readAll half (before ++ (cs ++ after)) =
        .error (.tooLong digits) := hread
    rw [hlong]
    exact ⟨digits, rfl⟩

/-- **A text between quotes is read as itself just if each of its characters stands for itself.** -/
theorem read_quoted_iff {s t : String} (ht : t.toList = '"' :: (s.toList ++ ['"'])) :
    read t = .ok (.str s) ↔ ∀ c ∈ s.toList, IsPlain c := by
  constructor
  · intro h
    rw [read, readWith, ht] at h
    obtain ⟨⟨v, rest⟩, hvalue, hend⟩ := bind_eq_ok.mp (mapError_eq_ok.mp h)
    obtain ⟨opening, hstring⟩ :
        ∃ opening, (readString (fun _ => '\ufffd') opening (s.toList ++ ['"'])).map
        (fun x => (Json.str (String.ofList x.1), x.2)) = .ok (v, rest) := ⟨_, hvalue⟩
    cases hread : readString (fun _ => '\ufffd') opening (s.toList ++ ['"']) with
    | error e =>
      rw [hread] at hstring
      cases hstring
    | ok x =>
      obtain ⟨ds, after⟩ := x
      rw [hread] at hstring
      obtain ⟨rfl, rfl⟩ := Prod.mk.inj (Except.ok.inj hstring)
      have hstr : Json.str (String.ofList ds) = .str s := by
        dsimp only at hend
        split at hend
        · exact Except.ok.inj hend
        · cases hend
      obtain rfl : ds = s.toList := by rw [← Json.str.inj hstr, String.toList_ofList]
      exact forall_isPlain_of_readString hread
  · intro h
    have hread := (Reads.string (.plain h)).readWith (fun _ => '\ufffd') isBlanks_nil
      isBlanks_nil (s := t)
      (by simpa using ht)
    rwa [String.ofList_toList] at hread

end Cadence.Json
