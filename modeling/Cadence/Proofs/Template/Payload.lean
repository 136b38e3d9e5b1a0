/-
Payloads: drafts between blanks, filled from the results of a run.

The text of a payload is a template.  If at the path of every placeholder there is a value
that may stand there, the finished text is read as the document that the draft becomes with
these values.

* `Template.bodies`, `Draft.bodies_pieces` — the placeholders in a draft are its holes, in
  their order;
* `Template.interpolate_spell` — pieces that stay what they are, with the values found for
  the placeholders;
* `Payload` — a draft between blanks;
* `Payload.IsFilled` — what is found for its placeholders may stand there;
* **`Payload.read_interpolate`** — the finished text is read as the document with these
  values in it.
-/
import Cadence.Proofs.Template.Draft

namespace Cadence

open Template

/-! ### The placeholders of a draft -/

namespace Template

/-- The bodies of the placeholders in a row of pieces. -/
def bodies (ps : List Piece) : List (List Char) :=
  ps.filterMap fun
    | .literal _ => none
    | .placeholder body => some body

@[simp] theorem bodies_nil : bodies [] = [] := rfl

@[simp] theorem bodies_append (ps qs : List Piece) : bodies (ps ++ qs) = bodies ps ++ bodies qs :=
  List.filterMap_append

@[simp] theorem bodies_literals (cs : List Char) : bodies (literals cs) = [] := by
  simp [bodies, literals, List.filterMap_map]

@[simp] theorem bodies_literal (c : Char) (ps : List Piece) :
    bodies (.literal c :: ps) = bodies ps :=
  rfl

theorem mem_bodies {ps : List Piece} {body : List Char}
    (h : .placeholder body ∈ ps) : body ∈ bodies ps :=
  List.mem_filterMap.mpr ⟨_, h, rfl⟩

end Template

/-- The body of a placeholder. -/
def Hole.body : Hole → List Char
  | .value body => body
  | .text body => body

theorem DraftString.bodies_pieces (s : DraftString) : bodies s.pieces = s.holes.map Hole.body := by
  have hparts : bodies (s.parts.flatMap StringPart.pieces) =
      s.parts.filterMap StringPart.hole? := by
    induction s.parts with
    | nil => rfl
    | cons part parts ih =>
      rw [List.flatMap_cons, bodies_append, ih]
      cases part with
      | char written c spelling => rw [StringPart.pieces, bodies_literals, List.nil_append]; rfl
      | hole body isBody => rfl
  have hquote : bodies [.literal '"'] = [] := rfl
  have hbody : Hole.body ∘ Hole.text = id := rfl
  rw [DraftString.pieces, bodies_literal, bodies_append, hparts, hquote, List.append_nil]
  rw [DraftString.holes, List.map_map, hbody, List.map_id]

mutual

/-- The placeholders in a draft are its holes. -/
theorem Draft.bodies_pieces : ∀ d : Draft, bodies d.pieces = d.holes.map Hole.body
  | .null => bodies_literals _
  | .bool _ => bodies_literals _
  | .number _ => bodies_literals _
  | .string s => s.bodies_pieces
  | .hole _ _ => rfl
  | .emptyArray b => by simp [Draft.pieces, Draft.holes]
  | .array b items => by simp [Draft.pieces, Draft.holes, items.bodies_pieces]
  | .emptyObject b => by simp [Draft.pieces, Draft.holes]
  | .object b members => by simp [Draft.pieces, Draft.holes, members.bodies_pieces]

theorem DraftItems.bodies_pieces :
    ∀ items : DraftItems, bodies items.pieces = items.holes.map Hole.body
  | .last v b => by simp [DraftItems.pieces, DraftItems.holes, v.bodies_pieces]
  | .more v b b' rest =>
    by simp [DraftItems.pieces, DraftItems.holes, v.bodies_pieces, rest.bodies_pieces]

theorem DraftMembers.bodies_pieces :
    ∀ members : DraftMembers, bodies members.pieces = members.holes.map Hole.body
  | .last name b₁ b₂ v b₃ => by
    simp [DraftMembers.pieces, DraftMembers.holes, name.bodies_pieces, v.bodies_pieces]
  | .more name b₁ b₂ v b₃ b₄ rest => by
    simp [DraftMembers.pieces, DraftMembers.holes, name.bodies_pieces, v.bodies_pieces,
      rest.bodies_pieces]

end

theorem DraftString.value_not_mem_holes (s : DraftString) (body : List Char) :
    .value body ∉ s.holes := by
  simp [DraftString.holes]

section

variable {env : List Char → Json} {body : List Char}

mutual

/-- The values that a draft without long integers takes in have none. -/
theorem Draft.isShort_value :
    ∀ d : Draft, d.isShort env = true → .value body ∈ d.holes → (env body).isShort = true
  | .string s, _, h => absurd h (s.value_not_mem_holes body)
  | .hole other _, hshort, h => by
    obtain rfl := Hole.value.inj (List.mem_singleton.mp h)
    exact hshort
  | .array _ items, hshort, h => items.isShort_value hshort h
  | .object _ members, hshort, h => members.isShort_value hshort h
  | .null, _, h | .bool _, _, h | .number _, _, h | .emptyArray _, _, h | .emptyObject _, _, h =>
    nomatch h

theorem DraftItems.isShort_value :
    ∀ items : DraftItems, items.isShort env = true → .value body ∈ items.holes →
      (env body).isShort = true
  | .last v _, hshort, h => v.isShort_value hshort h
  | .more v _ _ rest, hshort, h => by
    obtain ⟨hv, hrest⟩ := Bool.and_eq_true_iff.mp hshort
    exact (List.mem_append.mp h).elim (v.isShort_value hv) (rest.isShort_value hrest)

theorem DraftMembers.isShort_value :
    ∀ members : DraftMembers, members.isShort env = true → .value body ∈ members.holes →
      (env body).isShort = true
  | .last name _ _ v _, hshort, h =>
    (List.mem_append.mp h).elim (absurd · (name.value_not_mem_holes body)) (v.isShort_value hshort)
  | .more name _ _ v _ _ rest, hshort, h => by
    obtain ⟨hv, hrest⟩ := Bool.and_eq_true_iff.mp hshort
    rcases List.mem_append.mp h with h | h
    · exact absurd h (name.value_not_mem_holes body)
    · exact (List.mem_append.mp h).elim (v.isShort_value hv) (rest.isShort_value hrest)

end

end

/-! ### Filled templates -/

/-- **Pieces that stay what they are come to the texts of the values found for their
placeholders**, if the integers in these can be written. -/
theorem Template.interpolate_spell {results : Results} {env : List Char → Json}
    {ps : List Piece} (hps : Settled ps)
    (hfound : ∀ body ∈ bodies ps, (Json.obj results).lookup (pathOf body) = .ok (some (env body)) ∧
      env body ≠ .null)
    (hshort : ∀ body ∈ bodies ps, (env body).isShort = true) :
    interpolate results (String.ofList (spell ps)) = .ok (String.ofList (shown env ps)) := by
  refine interpolate_iff.mpr ⟨ps.map fun p => shown env [p], ?_, ?_⟩
  · rw [String.toList_ofList, hps.pieces_spell, List.forall₂_map_right_iff, List.forall₂_same]
    intro p hp
    cases p with
    | literal c => exact .literal c
    | placeholder body =>
      obtain ⟨hlookup, hpresent⟩ := hfound body (mem_bodies hp)
      rw [shown_placeholder]
      exact .value hlookup hpresent (Json.shown_of_short (hshort body (mem_bodies hp)))
  · have hone : shown env (ps.flatMap fun p => [p]) = ps.flatMap fun p => shown env [p] :=
      List.flatMap_assoc
    rw [← List.flatMap_def, ← hone, List.flatMap_singleton']

/-- There is no text of such pieces if an integer in one of the values has too many digits. -/
theorem Template.interpolate_spell_long {results : Results} {env : List Char → Json}
    {ps : List Piece} (hps : Settled ps)
    (hfound : ∀ body ∈ bodies ps, (Json.obj results).lookup (pathOf body) = .ok (some (env body)))
    {long : List Char} (hmem : .placeholder long ∈ ps) (hlong : (env long).isShort = false) :
    interpolate results (String.ofList (spell ps)) = .error .unwritable := by
  rw [interpolate, String.toList_ofList, hps.pieces_spell, map_eq_error]
  cases hfilled : fillAll results ps with
  | ok out =>
    obtain ⟨found, hlooked, hshort⟩ := fillAll_answered_iff.mp ⟨out, hfilled⟩ long hmem
    obtain rfl := Except.ok.inj (hlooked.symm.trans (hfound long (mem_bodies hmem)))
    cases hlong.symm.trans (hshort _ rfl)
  | error fault =>
    -- whatever stops the text, it is no path
    obtain ⟨before, body, after, rfl, -, hlacks⟩ := fillAll_error_iff.mp hfilled
    cases hlacks with
    | path refused => cases refused.symm.trans (hfound body (mem_bodies (by simp)))
    | digits => rfl

/-- What may stand for a placeholder is not null. -/
theorem Hole.Filled.ne_null {env : List Char → Json} {hole : Hole} (h : hole.Filled env) :
    env hole.body ≠ .null := by
  cases hole with
  | value body => exact h.1
  | text body =>
    obtain ⟨s, hs, -⟩ := h
    rw [Hole.body, hs]
    exact nofun

/-! ### Payloads -/

/-- A draft between blanks. -/
structure Payload where
  before : Blanks
  draft : Draft
  after : Blanks

namespace Payload

/-- How a payload is written. -/
def pieces (p : Payload) : List Piece :=
  literals p.before.1 ++ (p.draft.pieces ++ literals p.after.1)

/-- The text of a payload, a template. -/
def text (p : Payload) : String := String.ofList (spell p.pieces)

/-- Some values are found in the results at the paths of the placeholders of a payload, and
may stand for them. -/
def IsFilled (p : Payload) (results : Results) (env : List Char → Json) : Prop :=
  ∀ hole ∈ p.draft.holes,
    (Json.obj results).lookup (pathOf hole.body) = .ok (some (env hole.body)) ∧ hole.Filled env

variable {p : Payload} {results : Results} {env : List Char → Json}

/-- The integers in the values for the placeholders can be written. -/
def IsWritable (p : Payload) (env : List Char → Json) : Prop :=
  ∀ hole ∈ p.draft.holes, (env hole.body).isShort = true

theorem settled (p : Payload) : Settled p.pieces := by
  refine .blanks p.before (p.draft.settled.append ?_)
  simpa using Settled.blanks p.after .nil

theorem exists_hole {body : List Char} (h : body ∈ bodies p.pieces) :
    ∃ hole ∈ p.draft.holes, hole.body = body := by
  rw [pieces, bodies_append, bodies_append, bodies_literals, bodies_literals,
    p.draft.bodies_pieces, List.nil_append, List.append_nil] at h
  exact List.mem_map.mp h

theorem mem_pieces {hole : Hole} (h : hole ∈ p.draft.holes) :
    .placeholder hole.body ∈ p.pieces := by
  have hmem : hole.body ∈ bodies p.draft.pieces := p.draft.bodies_pieces ▸ List.mem_map_of_mem h
  refine List.mem_append_right _ (List.mem_append_left _ ?_)
  obtain ⟨piece, hpiece, hbody⟩ := List.mem_filterMap.mp hmem
  cases piece with
  | literal c => cases hbody
  | placeholder body => exact Option.some.inj hbody ▸ hpiece

/-- The text of a payload with the values in it. -/
theorem interpolate_text (h : p.IsFilled results env) (hshort : p.IsWritable env) :
    interpolate results p.text = .ok (String.ofList (shown env p.pieces)) := by
  refine interpolate_spell p.settled (fun body hbody => ?_) fun body hbody => ?_
  · obtain ⟨hole, hhole, rfl⟩ := exists_hole hbody
    exact ⟨(h hole hhole).1, (h hole hhole).2.ne_null⟩
  · obtain ⟨hole, hhole, rfl⟩ := exists_hole hbody
    exact hshort hole hhole

theorem interpolate_text_long (h : p.IsFilled results env) (hlong : ¬p.IsWritable env) :
    interpolate results p.text = .error .unwritable := by
  obtain ⟨hole, hhole, hvalue⟩ : ∃ hole ∈ p.draft.holes, (env hole.body).isShort = false := by
    simpa [IsWritable] using hlong
  refine interpolate_spell_long p.settled (fun body hbody => ?_) (mem_pieces hhole) hvalue
  obtain ⟨other, hother, rfl⟩ := exists_hole hbody
  exact (h other hother).1

/-- A payload is not empty. -/
theorem text_ne (h : p.IsFilled results env) : p.text ≠ "" := by
  intro hempty
  have hpieces : p.pieces = [] := spell_eq_nil.mp (String.ofList_eq_empty_iff.mp hempty)
  have hdraft : p.draft.pieces = [] :=
    (List.append_eq_nil_iff.mp (List.append_eq_nil_iff.mp hpieces).2).1
  have hlength := (p.draft.reads fun hole hhole => (h hole hhole).2).begins.length_pos
  rw [hdraft] at hlength
  exact absurd hlength (Nat.lt_irrefl 0)

theorem isWritable_of_isShort (h : p.IsFilled results env) (hshort : p.draft.isShort env = true) :
    p.IsWritable env := by
  intro hole hhole
  cases hole with
  | value body => exact p.draft.isShort_value hshort hhole
  | text body =>
    obtain ⟨s, hs, -⟩ := (h _ hhole).2
    rw [Hole.body, hs]
    rfl

/-- **A filled payload is read as its document with the values in it.** There is a finished
text just if the integers in the values can be written, and it is read as the document that
the draft becomes when each placeholder is replaced by the value at its path, unless an
integer in this document has too many digits to be read. -/
theorem read_interpolate (h : p.IsFilled results env) :
    (p.draft.isShort env = true →
      ∃ text, interpolate results p.text = .ok text ∧ Json.read text = .ok (p.draft.value env)) ∧
    (p.draft.isShort env = false → p.IsWritable env →
      ∃ text digits, interpolate results p.text = .ok text ∧
      Json.read text = .error (.tooLong digits)) ∧
    (¬p.IsWritable env → interpolate results p.text = .error .unwritable) := by
  have hread : if p.draft.isShort env then
      Json.read (String.ofList (shown env p.pieces)) = .ok (p.draft.value env)
      else ∃ digits, Json.read (String.ofList (shown env p.pieces)) = .error (.tooLong digits) := by
    refine (p.draft.reads fun hole hhole => (h hole hhole).2).readWith _ p.before.2 p.after.2 ?_
    rw [String.toList_ofList, pieces, shown_append, shown_append, shown_literals, shown_literals]
  refine ⟨fun hshort => ?_, fun hlong hwritable => ?_, interpolate_text_long h⟩
  · rw [if_pos hshort] at hread
    exact ⟨_, interpolate_text h (isWritable_of_isShort h hshort), hread⟩
  · rw [if_neg (Bool.eq_false_iff.mp hlong)] at hread
    obtain ⟨digits, hdigits⟩ := hread
    exact ⟨_, digits, interpolate_text h hwritable, hdigits⟩

/-- A number and, in value position, a list with quotes and null in it. -/
theorem read_interpolate_nested :
    let v : Json := .arr [.str "say \"hi\"", .null, .obj [("k", .bool false)], .float 0.5]
    ∃ text, interpolate [("x", .obj [("body", v)])] "[1, $\x7bx.body\x7d]" = .ok text ∧
      Json.read text = .ok (.arr [.int 1, v]) := by
  intro v
  let one : Json.Number :=
    ⟨false, ['1'], Or.inr ⟨⟨nofun, List.forall_mem_singleton.mpr rfl⟩, nofun⟩,
      none, nofun, none⟩
  let p : Payload := ⟨⟨[], nofun⟩, .array ⟨[], nofun⟩ (.more (.number one) ⟨[], nofun⟩
    ⟨[' '], List.forall_mem_singleton.mpr rfl⟩
      (.last (.hole "x.body".toList ⟨by decide, by decide⟩) ⟨[], nofun⟩)),
    ⟨[], nofun⟩⟩
  have hfilled : p.IsFilled [("x", .obj [("body", v)])] fun _ => v := by
    intro hole hhole
    obtain rfl := List.mem_singleton.mp hhole
    exact ⟨rfl, nofun, nofun, trivial, trivial, ⟨by decide, trivial, trivial⟩, rfl, trivial⟩
  have htemplate : p.text = "[1, $\x7bx.body\x7d]" := by decide +kernel
  obtain ⟨text, htext, hread⟩ := (read_interpolate hfilled).1 rfl
  exact ⟨text, htemplate ▸ htext, hread⟩

end Payload

end Cadence
