/-
Drafts: JSON documents with placeholders.

A draft is written like a JSON document, with blanks between its parts, but a placeholder
may stand for a value, or for some characters inside a string.  As a template a draft falls
into just the pieces that it is written in, and when its placeholders are replaced, what
stands there is again a document: the one in which each placeholder is replaced by what was
found for it.

* `Draft`, `DraftItems`, `DraftMembers` — drafts, and the rows of items and of members in them;
* `Draft.pieces`, `Draft.value` — how a draft is written, and the value that it becomes;
* `Template.Settled` — pieces that are found again in the text that they spell;
* `Draft.settled` — the pieces of a draft are;
* `Hole.Filled` — what may be found for a placeholder: a value that is no text and not null,
  or a text without quotes, backslashes and controls;
* **`Draft.reads`** — with such values in it, the text of a draft stands for the value that
  it becomes.
-/
import Mathlib.Data.List.Chain
import Cadence.Proofs.Json.Printed
import Cadence.Proofs.Template.Pieces

namespace Cadence

open Template

/-! ### Characters that open no placeholder -/

namespace Template

/-- Two pieces that may stand side by side: they are not a dollar sign and an opening brace. -/
def Apart (p q : Piece) : Prop := ¬(p = .literal '$' ∧ q = .literal '\x7b')

/-- Characters as pieces. -/
def literals (cs : List Char) : List Piece := cs.map .literal

/-- Pieces that stay what they are whatever stands behind them. -/
structure Settled (ps : List Piece) : Prop where
  apart : ps.IsChain Apart
  last : ps.getLast? ≠ some (.literal '$')
  bodies : ∀ body, .placeholder body ∈ ps → IsBody body

namespace Settled

variable {ps qs : List Piece} {cs : List Char}

theorem nil : Settled [] := ⟨.nil, nofun, nofun⟩

theorem append (hps : Settled ps) (hqs : Settled qs) : Settled (ps ++ qs) where
  apart := hps.apart.append hqs.apart fun p hp _ _ h => hps.last (h.1 ▸ Option.mem_def.mp hp)
  last := by
    have hlast := hqs.last
    rw [List.getLast?_append]
    cases hq : qs.getLast? with
    | none => exact hps.last
    | some q => rwa [hq] at hlast
  bodies := fun body hmem => (List.mem_append.mp hmem).elim (hps.bodies body) (hqs.bodies body)

/-- Characters without a dollar sign. -/
theorem literals (h : '$' ∉ cs) : Settled (literals cs) where
  apart := by
    induction cs with
    | nil => exact .nil
    | cons c cs ih =>
      refine (ih (List.not_mem_of_not_mem_cons h)).cons fun q _ hapart => ?_
      exact List.ne_of_not_mem_cons h (Piece.literal.inj hapart.1).symm
  last := by
    intro hlast
    obtain ⟨c, hc, heq⟩ := List.mem_map.mp (List.mem_of_getLast? hlast)
    exact h (Piece.literal.inj heq ▸ hc)
  bodies := by simp [Template.literals]

/-- A character that is no dollar sign, before others. -/
theorem char {c : Char} (hc : c ≠ '$') (h : Settled ps) : Settled (.literal c :: ps) := by
  have hchar : '$' ∉ [c] := by simpa using hc.symm
  exact (literals hchar).append h

theorem placeholder {body : List Char} (h : IsBody body) : Settled [.placeholder body] where
  apart := .singleton _
  last := by simp
  bodies := by
    intro other hmem
    obtain rfl := Piece.placeholder.inj (List.mem_singleton.mp hmem)
    exact h

/-- **Settled pieces are the pieces of the text that they spell.** -/
theorem pieces_spell (h : Settled ps) : pieces (spell ps) = ps := by
  refine (Decomposes.eq_pieces ⟨rfl, h.bodies, ?_⟩).symm
  rintro before c after rfl ⟨body, rest, -, heq⟩
  obtain ⟨rfl, hbrace⟩ := List.cons.inj heq
  -- the opening brace is the first character of the next piece
  cases after with
  | nil => cases hbrace
  | cons q after =>
    cases q with
    | literal d =>
      obtain ⟨rfl, -⟩ := List.cons.inj hbrace
      exact h.apart.right_of_append.rel_head? rfl ⟨rfl, rfl⟩
    | placeholder other => cases hbrace

end Settled

/-- The text of pieces in which each placeholder is replaced by the text of a value. -/
def shown (env : List Char → Json) (ps : List Piece) : List Char :=
  ps.flatMap fun
    | .literal c => [c]
    | .placeholder body => (env body).text.toList

section

variable {env : List Char → Json}

@[simp] theorem shown_append (ps qs : List Piece) :
    shown env (ps ++ qs) = shown env ps ++ shown env qs :=
  List.flatMap_append

@[simp] theorem shown_placeholder (body : List Char) :
    shown env [.placeholder body] = (env body).text.toList :=
  List.append_nil _

@[simp] theorem shown_literals (cs : List Char) : shown env (literals cs) = cs := by
  rw [shown, literals, List.flatMap_map]
  exact List.flatMap_singleton' cs

@[simp] theorem shown_literal (c : Char) (ps : List Piece) :
    shown env (.literal c :: ps) = c :: shown env ps :=
  rfl

end

end Template

/-! ### Drafts -/

/-- A row of blanks. -/
abbrev Blanks := {cs : List Char // Json.IsBlanks cs}

/-- A part of a string: a character, written in some way, or a placeholder. -/
inductive StringPart where
  | char (written : List Char) (meant : Char) (spelling : Json.Spelling written meant)
  | hole (body : List Char) (isBody : IsBody body)

namespace StringPart

/-- How a part is written. -/
def pieces : StringPart → List Piece
  | .char written _ _ => literals written
  | .hole body _ => [.placeholder body]

/-- What a part stands for. -/
def meant (env : List Char → Json) : StringPart → List Char
  | .char _ c _ => [c]
  | .hole body _ => (env body).text.toList

/-- The placeholder that a part is. -/
def hole? : StringPart → Option (List Char)
  | .char .. => none
  | .hole body _ => some body

end StringPart

/-- A string in a draft: nothing in it opens a placeholder but the placeholders themselves. -/
structure DraftString where
  parts : List StringPart
  apart : (parts.flatMap StringPart.pieces).IsChain Apart

namespace DraftString

/-- A string that is just a placeholder. -/
def ofHole (body : List Char) (isBody : IsBody body) : DraftString :=
  ⟨[.hole body isBody], .singleton _⟩

/-- How a string is written. -/
def pieces (s : DraftString) : List Piece :=
  .literal '"' :: (s.parts.flatMap StringPart.pieces ++ [.literal '"'])

/-- What a string stands for. -/
def meant (env : List Char → Json) (s : DraftString) : String :=
  String.ofList (s.parts.flatMap (·.meant env))

end DraftString

mutual

/-- A draft of a value. -/
inductive Draft where
  | null
  | bool (b : Bool)
  | number (n : Json.Number)
  | string (s : DraftString)
  | hole (body : List Char) (isBody : IsBody body)
  | emptyArray (b : Blanks)
  | array (b : Blanks) (items : DraftItems)
  | emptyObject (b : Blanks)
  | object (b : Blanks) (members : DraftMembers)

/-- Drafts of the items of an array, with blanks around the commas. -/
inductive DraftItems where
  | last (v : Draft) (b : Blanks)
  | more (v : Draft) (b b' : Blanks) (rest : DraftItems)

/-- Drafts of the members of an object, with blanks around the colons and the commas. -/
inductive DraftMembers where
  | last (name : DraftString) (b₁ b₂ : Blanks) (v : Draft) (b₃ : Blanks)
  | more (name : DraftString) (b₁ b₂ : Blanks) (v : Draft) (b₃ b₄ : Blanks) (rest : DraftMembers)

end

mutual

/-- How a draft is written. -/
def Draft.pieces : Draft → List Piece
  | .null => literals (Json.chars .null)
  | .bool b => literals (Json.chars (.bool b))
  | .number n => literals n.chars
  | .string s => s.pieces
  | .hole body _ => [.placeholder body]
  | .emptyArray b => .literal '[' :: (literals b.1 ++ [.literal ']'])
  | .array b items => .literal '[' :: (literals b.1 ++ items.pieces)
  | .emptyObject b => .literal '\x7b' :: (literals b.1 ++ [.literal '\x7d'])
  | .object b members => .literal '\x7b' :: (literals b.1 ++ members.pieces)

/-- How items are written, with the closing bracket. -/
def DraftItems.pieces : DraftItems → List Piece
  | .last v b => v.pieces ++ (literals b.1 ++ [.literal ']'])
  | .more v b b' rest =>
    v.pieces ++ (literals b.1 ++ .literal ',' :: (literals b'.1 ++ rest.pieces))

/-- How members are written, with the closing brace. -/
def DraftMembers.pieces : DraftMembers → List Piece
  | .last name b₁ b₂ v b₃ =>
    name.pieces ++ (literals b₁.1 ++ .literal ':' :: (literals b₂.1 ++
      (v.pieces ++ (literals b₃.1 ++ [.literal '\x7d']))))
  | .more name b₁ b₂ v b₃ b₄ rest =>
    name.pieces ++ (literals b₁.1 ++ .literal ':' :: (literals b₂.1 ++
      (v.pieces ++ (literals b₃.1 ++ .literal ',' :: (literals b₄.1 ++ rest.pieces)))))

end

mutual

/-- The value that a draft becomes. -/
def Draft.value (env : List Char → Json) : Draft → Json
  | .null => .null
  | .bool b => .bool b
  | .number n => n.value
  | .string s => .str (s.meant env)
  | .hole body _ => env body
  | .emptyArray _ => .arr []
  | .array _ items => .arr (items.values env)
  | .emptyObject _ => .obj []
  | .object _ members => Json.object (members.values env)

/-- The values of items. -/
def DraftItems.values (env : List Char → Json) : DraftItems → List Json
  | .last v _ => [v.value env]
  | .more v _ _ rest => v.value env :: rest.values env

/-- The names of members and their values. -/
def DraftMembers.values (env : List Char → Json) : DraftMembers → List (String × Json)
  | .last name _ _ v _ => [(name.meant env, v.value env)]
  | .more name _ _ v _ _ rest => (name.meant env, v.value env) :: rest.values env

end

mutual

/-- No integer in what a draft becomes has too many digits to be read. -/
def Draft.isShort (env : List Char → Json) : Draft → Bool
  | .number n => n.isShort
  | .hole body _ => (env body).isShort
  | .array _ items => items.isShort env
  | .object _ members => members.isShort env
  | _ => true

/-- `Draft.isShort` for each item. -/
def DraftItems.isShort (env : List Char → Json) : DraftItems → Bool
  | .last v _ => v.isShort env
  | .more v _ _ rest => v.isShort env && rest.isShort env

/-- `Draft.isShort` for the value of each member. -/
def DraftMembers.isShort (env : List Char → Json) : DraftMembers → Bool
  | .last _ _ _ v _ => v.isShort env
  | .more _ _ _ v _ _ rest => v.isShort env && rest.isShort env

end

/-- A placeholder and where it stands: for a value, or inside a string. -/
inductive Hole where
  | value (body : List Char)
  | text (body : List Char)

/-- The placeholders of a string. -/
def DraftString.holes (s : DraftString) : List Hole :=
  (s.parts.filterMap StringPart.hole?).map .text

mutual

/-- The placeholders of a draft. -/
def Draft.holes : Draft → List Hole
  | .string s => s.holes
  | .hole body _ => [.value body]
  | .array _ items => items.holes
  | .object _ members => members.holes
  | _ => []

/-- The placeholders of items. -/
def DraftItems.holes : DraftItems → List Hole
  | .last v _ => v.holes
  | .more v _ _ rest => v.holes ++ rest.holes

/-- The placeholders of members. -/
def DraftMembers.holes : DraftMembers → List Hole
  | .last name _ _ v _ => name.holes ++ v.holes
  | .more name _ _ v _ _ rest => name.holes ++ (v.holes ++ rest.holes)

end

/-! ### Drafts as templates -/

theorem Template.Settled.blanks {ps : List Piece} (b : Blanks) (h : Settled ps) :
    Settled (Template.literals b.1 ++ ps) :=
  .append (.literals fun hdollar => absurd (b.2 '$' hdollar) (by decide)) h

theorem not_mem_of_isDigits {ds : List Char} (h : Json.IsDigits ds) : '$' ∉ ds :=
  fun hmem => absurd (h.2 '$' hmem) (by decide)

theorem settled_number (n : Json.Number) : Settled (literals n.chars) := by
  have hsign : '$' ∉ (if n.negative then ['-'] else []) := by split <;> decide
  have hfraction : '$' ∉ n.fractionChars := by
    unfold Json.Number.fractionChars
    cases hds : n.fraction with
    | none => exact List.not_mem_nil
    | some ds =>
      exact List.not_mem_cons_of_ne_of_not_mem (by decide)
        (not_mem_of_isDigits (n.fraction_ok ds hds))
  have hexponent : '$' ∉ n.exponentChars := by
    unfold Json.Number.exponentChars
    cases n.exponent with
    | none => exact List.not_mem_nil
    | some e =>
      have hletter : '$' ≠ e.letter := by rcases e.letter_ok with h | h <;> rw [h] <;> decide
      have hminus : '$' ∉ Json.signChars e.sign := by
        match e.sign with
        | none => decide
        | some true => decide
        | some false => decide
      refine List.not_mem_cons_of_ne_of_not_mem hletter fun hmem => ?_
      exact (List.mem_append.mp hmem).elim hminus (not_mem_of_isDigits e.digits_ok)
  refine .literals fun hmem => ?_
  simp only [Json.Number.chars, List.mem_append] at hmem
  rcases hmem with h | h | h | h
  · exact hsign h
  · exact not_mem_of_isDigits n.isDigits_whole h
  · exact hfraction h
  · exact hexponent h

/-- A string opens no placeholder but its own, as it ends with its quote. -/
theorem DraftString.settled (s : DraftString) : Settled s.pieces := by
  refine .char (by decide) ⟨s.apart.append (.singleton _) ?_, by simp, fun body hmem => ?_⟩
  · rintro p - q ⟨⟩ ⟨-, hbrace⟩
    exact absurd hbrace (by decide)
  · rcases List.mem_append.mp hmem with hmem | hmem
    · obtain ⟨part, -, hpart⟩ := List.mem_flatMap.mp hmem
      cases part with
      | char written c spelling => simp [StringPart.pieces, literals] at hpart
      | hole other isBody =>
        obtain rfl := Piece.placeholder.inj (List.mem_singleton.mp hpart)
        exact isBody
    · cases List.mem_singleton.mp hmem

mutual

/-- A draft opens no placeholder but its own. -/
theorem Draft.settled : ∀ d : Draft, Settled d.pieces
  | .null => .literals (by decide)
  | .bool b => .literals (by cases b <;> decide)
  | .number n => settled_number n
  | .string s => s.settled
  | .hole _ h => .placeholder h
  | .emptyArray b => .char (by decide) (.blanks b (.char (by decide) .nil))
  | .array b items => .char (by decide) (.blanks b items.settled)
  | .emptyObject b => .char (by decide) (.blanks b (.char (by decide) .nil))
  | .object b members => .char (by decide) (.blanks b members.settled)

theorem DraftItems.settled : ∀ items : DraftItems, Settled items.pieces
  | .last v b => v.settled.append (.blanks b (.char (by decide) .nil))
  | .more v b b' rest => v.settled.append (.blanks b (.char (by decide) (.blanks b' rest.settled)))

theorem DraftMembers.settled : ∀ members : DraftMembers, Settled members.pieces
  | .last name b₁ b₂ v b₃ =>
    name.settled.append (.blanks b₁ (.char (by decide) (.blanks b₂
      (v.settled.append (.blanks b₃ (.char (by decide) .nil))))))
  | .more name b₁ b₂ v b₃ b₄ rest =>
    name.settled.append (.blanks b₁ (.char (by decide) (.blanks b₂
      (v.settled.append (.blanks b₃ (.char (by decide) (.blanks b₄ rest.settled)))))))

end

/-! ### Drafts as documents -/

/-- What may be found for a placeholder: for a value one that is neither a text nor null and
that JSON text can carry, and inside a string a text whose characters stand for themselves
there. -/
def Hole.Filled (env : List Char → Json) : Hole → Prop
  | .value body => env body ≠ .null ∧ (∀ s, env body ≠ .str s) ∧ (env body).ReadsBack
  | .text body => ∃ s, env body = .str s ∧ ∀ c ∈ s.toList, Json.IsPlain c

/-- Inside other text a value that is neither a text nor null is written as it is in JSON text. -/
theorem Json.toList_text {v : Json} (hnull : v ≠ .null) (htext : ∀ s, v ≠ .str s)
    (hback : v.ReadsBack) :
    v.text.toList = v.chars := by
  cases v with
  | null => exact absurd rfl hnull
  | bool b => cases b <;> rfl
  | int n => exact String.toList_ofList
  | float x =>
    -- a number that reads back is finite, and finite numbers are written alike
    have hread : Json.readNumber (Decimal.textWith "NaN" "Infinity" x).toList =
        some (.ok (.float x, [])) := hback
    show (Decimal.textWith "nan" "inf" x).toList = (Decimal.textWith "NaN" "Infinity" x).toList
    unfold Decimal.textWith at hread ⊢
    split
    · next hnan =>
      rw [if_pos hnan] at hread
      cases hread
    · next hnan =>
      rw [if_neg hnan] at hread
      cases hparts : Decimal.Parts.ofFloat x with
      | some p => rfl
      | none =>
        rw [hparts] at hread
        dsimp only at hread
        split at hread <;> cases hread
  | str s => exact absurd rfl (htext s)
  | arr vs => exact String.toList_ofList
  | obj ms => exact String.toList_ofList

section

variable {env : List Char → Json}

/-- What is written for a part stands for it. -/
theorem StringPart.spells {part : StringPart}
    (h : ∀ body ∈ part.hole?, (Hole.text body).Filled env) :
    Json.Spells (shown env part.pieces) (part.meant env) := by
  cases part with
  | char written c spelling =>
    rw [StringPart.pieces, shown_literals]
    exact spelling.spells
  | hole body isBody =>
    obtain ⟨s, hs, hplain⟩ := h body rfl
    rw [StringPart.pieces, shown_placeholder, StringPart.meant, hs]
    exact .plain hplain

/-- What is written for a string stands for it. -/
theorem DraftString.spells {s : DraftString} (h : ∀ hole ∈ s.holes, hole.Filled env) :
    Json.Spells (shown env (s.parts.flatMap StringPart.pieces))
      (s.parts.flatMap (·.meant env)) := by
  have hshown : shown env (s.parts.flatMap StringPart.pieces) = s.parts.flatMap fun part =>
      shown env part.pieces :=
    List.flatMap_assoc
  rw [hshown]
  refine .flatMap fun part hpart => StringPart.spells fun body hbody => h _ ?_
  exact List.mem_map_of_mem (List.mem_filterMap.mpr ⟨part, hpart, hbody⟩)

theorem DraftString.shown_pieces (s : DraftString) :
    shown env s.pieces = '"' :: (shown env (s.parts.flatMap StringPart.pieces) ++ ['"']) := by
  rw [DraftString.pieces, shown_literal, shown_append]
  rfl

mutual

/-- **With values in it the text of a draft stands for the value that it becomes.** -/
theorem Draft.reads : ∀ d : Draft, (∀ hole ∈ d.holes, hole.Filled env) →
    Json.Reads (shown env d.pieces) (d.isShort env) (d.value env)
  | .null, _ => by
    rw [Draft.pieces, shown_literals]
    exact .null
  | .bool b, _ => by
    rw [Draft.pieces, shown_literals]
    exact .bool b
  | .number n, _ => by
    rw [Draft.pieces, shown_literals]
    exact .number n
  | .string s, h => by
    rw [Draft.pieces, s.shown_pieces]
    exact .string (DraftString.spells h)
  | .hole body _, h => by
    obtain ⟨hnull, htext, hback⟩ := h _ (List.mem_singleton_self _)
    rw [Draft.pieces, shown_placeholder, Json.toList_text hnull htext hback]
    exact Json.reads_chars _ hback
  | .emptyArray b, _ => by
    rw [Draft.pieces, shown_literal, shown_append, shown_literals]
    exact .emptyArray b.2
  | .array b items, h => by
    rw [Draft.pieces, shown_literal, shown_append, shown_literals]
    exact .array b.2 (items.reads h)
  | .emptyObject b, _ => by
    rw [Draft.pieces, shown_literal, shown_append, shown_literals]
    exact .emptyObject b.2
  | .object b members, h => by
    rw [Draft.pieces, shown_literal, shown_append, shown_literals]
    exact .object b.2 (members.reads h)

theorem DraftItems.reads : ∀ items : DraftItems, (∀ hole ∈ items.holes, hole.Filled env) →
    Json.ReadsItems (shown env items.pieces) (items.isShort env) (items.values env)
  | .last v b, h => by
    rw [DraftItems.pieces, shown_append, shown_append, shown_literals]
    exact .last (v.reads h) b.2
  | .more v b b' rest, h => by
    obtain ⟨hv, hrest⟩ := List.forall_mem_append.mp h
    rw [DraftItems.pieces, shown_append, shown_append, shown_literals, shown_literal,
      shown_append, shown_literals]
    exact .more (v.reads hv) b.2 b'.2 (rest.reads hrest)

theorem DraftMembers.reads : ∀ members : DraftMembers, (∀ hole ∈ members.holes, hole.Filled env) →
    Json.ReadsMembers (shown env members.pieces) (members.isShort env) (members.values env)
  | .last name b₁ b₂ v b₃, h => by
    obtain ⟨hname, hv⟩ := List.forall_mem_append.mp h
    simp only [DraftMembers.pieces, shown_append, shown_literals, shown_literal,
      DraftString.shown_pieces, List.cons_append, List.append_assoc, List.nil_append]
    exact .last (DraftString.spells hname) b₁.2 b₂.2 (v.reads hv) b₃.2
  | .more name b₁ b₂ v b₃ b₄ rest, h => by
    obtain ⟨hname, hmore⟩ := List.forall_mem_append.mp h
    obtain ⟨hv, hrest⟩ := List.forall_mem_append.mp hmore
    simp only [DraftMembers.pieces, shown_append, shown_literals, shown_literal,
      DraftString.shown_pieces, List.cons_append, List.append_assoc, List.nil_append]
    exact .more (DraftString.spells hname) b₁.2 b₂.2 (v.reads hv) b₃.2 b₄.2 (rest.reads hrest)

end

end

end Cadence
