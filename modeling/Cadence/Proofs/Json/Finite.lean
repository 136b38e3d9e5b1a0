/-
Values without the numbers that are not finite, and values as documents.

A value is written down with null in place of every number that is not finite, and read as a
document.

* `Json.dropNonFinite_eq_self` — a value is written down as it is exactly if all its numbers
  are finite;
* `Json.allFinite_dropNonFinite` — what is written down is always finite;
* `Document.filed` — the document that is read;
* `Document.toJson_ofJson` — a value comes back unchanged from the document it became.
-/
import Mathlib.Tactic.Common
import Cadence.Json.Print
import Cadence.Run.Validate

namespace Cadence

namespace Json

/-! ### Lists of values -/

theorem itemsFinite_eq (vs : List Json) : itemsFinite vs = vs.all allFinite := by
  induction vs with
  | nil => rfl
  | cons v vs ih => rw [itemsFinite, ih, List.all_cons]

theorem membersFinite_eq (ms : List (String × Json)) :
    membersFinite ms = ms.all fun m => m.2.allFinite := by
  induction ms with
  | nil => rfl
  | cons m ms ih => rw [membersFinite, ih, List.all_cons]

theorem itemsDropNonFinite_eq (vs : List Json) : itemsDropNonFinite vs = vs.map dropNonFinite := by
  induction vs with
  | nil => rfl
  | cons v vs ih => rw [itemsDropNonFinite, ih, List.map_cons]

theorem itemsShort_eq (vs : List Json) : itemsShort vs = vs.all isShort := by
  induction vs with
  | nil => rfl
  | cons v vs ih => rw [itemsShort, ih, List.all_cons]

theorem membersShort_eq (ms : List (String × Json)) :
    membersShort ms = ms.all fun m => m.2.isShort := by
  induction ms with
  | nil => rfl
  | cons m ms ih => rw [membersShort, ih, List.all_cons]

/-! ### What is written down -/

mutual

theorem dropNonFinite_of_allFinite : ∀ v : Json, v.allFinite = true → v.dropNonFinite = v
  | .null, _ => rfl
  | .bool _, _ => rfl
  | .int _, _ => rfl
  | .float x, h => by
    have hx : (x.isNaN || x.isInf) = false := by simpa [allFinite] using h
    rw [dropNonFinite, hx]
    rfl
  | .str _, _ => rfl
  | .arr items, h => by rw [dropNonFinite, itemsDropNonFinite_of_itemsFinite items h]
  | .obj members, h => by rw [dropNonFinite, membersDropNonFinite_of_membersFinite members h]

theorem itemsDropNonFinite_of_itemsFinite :
    ∀ vs : List Json, itemsFinite vs = true → itemsDropNonFinite vs = vs
  | [], _ => rfl
  | v :: vs, h => by
    rw [itemsFinite, Bool.and_eq_true] at h
    rw [itemsDropNonFinite, dropNonFinite_of_allFinite v h.1,
      itemsDropNonFinite_of_itemsFinite vs h.2]

theorem membersDropNonFinite_of_membersFinite :
    ∀ ms : List (String × Json), membersFinite ms = true → membersDropNonFinite ms = ms
  | [], _ => rfl
  | (n, v) :: ms, h => by
    rw [membersFinite, Bool.and_eq_true] at h
    rw [membersDropNonFinite, dropNonFinite_of_allFinite v h.1,
      membersDropNonFinite_of_membersFinite ms h.2]

end

mutual

/-- What is written down is finite. -/
theorem allFinite_dropNonFinite : ∀ v : Json, v.dropNonFinite.allFinite = true
  | .null => rfl
  | .bool _ => rfl
  | .int _ => rfl
  | .float x => by
    rw [dropNonFinite]
    -- a number that is not finite has become null
    cases hx : x.isNaN || x.isInf with
    | true => rfl
    | false =>
      show (!(x.isNaN || x.isInf)) = true
      rw [hx]
      rfl
  | .str _ => rfl
  | .arr items => itemsFinite_itemsDropNonFinite items
  | .obj members => membersFinite_membersDropNonFinite members

theorem itemsFinite_itemsDropNonFinite :
    ∀ vs : List Json, itemsFinite (itemsDropNonFinite vs) = true
  | [] => rfl
  | v :: vs => by
    rw [itemsDropNonFinite, itemsFinite, allFinite_dropNonFinite v,
      itemsFinite_itemsDropNonFinite vs]
    rfl

theorem membersFinite_membersDropNonFinite :
    ∀ ms : List (String × Json), membersFinite (membersDropNonFinite ms) = true
  | [] => rfl
  | (n, v) :: ms => by
    rw [membersDropNonFinite, membersFinite, allFinite_dropNonFinite v,
      membersFinite_membersDropNonFinite ms]
    rfl

end

/-- **A value is written down as it is exactly if all its numbers are finite.** -/
theorem dropNonFinite_eq_self {v : Json} : v.dropNonFinite = v ↔ v.allFinite = true := by
  constructor
  · intro h
    rw [← h]
    exact allFinite_dropNonFinite v
  · exact dropNonFinite_of_allFinite v

end Json

namespace Document

/-! ### Values as documents -/

theorem ofItems_eq (vs : List Json) : ofItems vs = vs.map ofJson := by
  induction vs with
  | nil => rfl
  | cons v vs ih => rw [ofItems, ih, List.map_cons]

mutual

/-- A value comes back unchanged from the document it became. -/
theorem toJson_ofJson : ∀ v : Json, (ofJson v).toJson = v
  | .null => rfl
  | .bool _ => rfl
  | .int _ => rfl
  | .float _ => rfl
  | .str _ => rfl
  | .arr items => by rw [ofJson, toJson, itemsToJson_ofItems items]
  | .obj members => by rw [ofJson, toJson, entriesToJson_ofMembers members]

theorem itemsToJson_ofItems : ∀ vs : List Json, itemsToJson (ofItems vs) = vs
  | [] => rfl
  | v :: vs => by rw [ofItems, itemsToJson, toJson_ofJson v, itemsToJson_ofItems vs]

theorem entriesToJson_ofMembers : ∀ ms : List (String × Json), entriesToJson (ofMembers ms) = ms
  | [] => rfl
  | (n, v) :: ms => by
    rw [ofMembers, entriesToJson, toJson_ofJson v, entriesToJson_ofMembers ms]
    rfl

end

/-! ### Values written down and read -/

/-- The document that is read where a value was written down. -/
def filed (v : Json) : Document := ofJson v.dropNonFinite

@[simp] theorem filed_null : filed .null = .null := rfl

@[simp] theorem filed_bool (b : Bool) : filed (.bool b) = .bool b := rfl

@[simp] theorem filed_int (n : Int) : filed (.int n) = .int n := rfl

@[simp] theorem filed_str (s : String) : filed (.str s) = .str s := rfl

@[simp] theorem filed_arr (vs : List Json) : filed (.arr vs) = .seq (vs.map filed) := by
  rw [filed, Json.dropNonFinite, ofJson, Json.itemsDropNonFinite_eq, ofItems_eq, List.map_map]
  rfl

/-- The fields that are read where members were written down. -/
def filedFields (ms : List (String × Json)) : List (Document × Document) :=
  ofMembers (Json.membersDropNonFinite ms)

@[simp] theorem filed_obj (ms : List (String × Json)) :
    filed (.obj ms) = .map (filedFields ms) :=
  rfl

theorem filedFields_cons (n : String) (v : Json) (ms : List (String × Json)) :
    filedFields ((n, v) :: ms) = (.str n, filed v) :: filedFields ms := rfl

end Document

end Cadence
