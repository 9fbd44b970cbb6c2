/-
This file models how the answer of one verification step is held to its byte limit.
-/

import FramaCMcp.Foundation.PrettyJson

namespace FramaCMcp.ResponseBudget

/-- This is `VERIFY_PROGRAM_STEP_RESPONSE_CAP_BYTES`. -/
def capBytes : Nat := 16 * 1024

def texts (items : List String) : Json := .arr (items.map .str)

def payloadBudget (omittedFields : List String) : Json :=
  .obj [("cap_bytes", .num capBytes), ("bytes", .num 0), ("omitted_fields", texts omittedFields)]

/-- A response goes with the size that was measured last. -/
structure Measured where
  response : Json
  bytes : Nat

/-- The size is written and measured again until the written size is the measured one. -/
def recordAgain : Nat → Nat → Json → Option Measured
  | 0, _, _ => none
  | steps + 1, recorded, response =>
      let bytes := response.prettySize 0
      if bytes = recorded then some ⟨response, bytes⟩
      else match response.get "payload_budget" with
        | some (.obj budget) =>
            recordAgain steps bytes
              (response.insert "payload_budget" (Json.obj budget |>.insert "bytes" (.num bytes)))
        | _ => some ⟨response, bytes⟩

def recordPayloadBytes (steps : Nat) (response : Json) : Option Measured :=
  recordAgain steps 0 response

/-- The sum of the two counts is a machine word. -/
def omitPreviewRows (object : Json) (field omitted : String) (keep : Nat) : Json × Bool :=
  let alreadyOmitted := ((object.get omitted).bind Json.asU64).getD 0
  match object.get field with
  | some (.arr items) =>
      let total := (items.length + alreadyOmitted) % 2 ^ 64
      let retained := items.take keep
      ((object.insert field (.arr retained)).insert omitted (.num (total - retained.length : Nat)),
        retained.length < items.length)
  | _ => (object, false)

def omitPreviews (keep : Nat) (measured : Measured) : Json × Bool :=
  let ready := omitPreviewRows measured.response "ready_functions" "ready_functions_omitted" keep
  let frontier := omitPreviewRows ready.1 "frontier" "frontier_omitted" keep
  (frontier.1, ready.2 || frontier.2)

def omitBlocked (measured : Measured) : Json × Bool :=
  match measured.response.get "next_action" with
  | some (.obj action) =>
      let blocked := omitPreviewRows (.obj action) "blocked_functions" "blocked_functions_omitted" 0
      (measured.response.insert "next_action" blocked.1, blocked.2)
  | _ => (measured.response, false)

def noCall (reason blocker : String) : Json :=
  .obj [("tool", .null), ("args", .obj []), ("reason", .str reason), ("blockers", texts [blocker]),
    ("confidence", .str "high")]

def oversizedName : Json :=
  noCall ("The ready function's name does not fit the response budget, so no call naming it can " ++
    "be sent; read the frontier with list.") "oversized_function_name"

/-- The action goes only where the function's name put the response over the limit. -/
def dropAction (measured : Measured) : Json × Bool :=
  let name := (measured.response.pointer ["next_action", "args", "function"]).bind Json.asStr
  let nameBytes := (name.map String.utf8ByteSize).getD 0
  if 0 < nameBytes ∧ measured.bytes - nameBytes ≤ capBytes then
    (measured.response.insert "next_action" oversizedName, true)
  else (measured.response, false)

def truncatedPayload : Json :=
  .obj [("status", .str "payload_truncated"),
    ("next_action", noCall ("The response did not fit the payload budget with every omittable " ++
      "field already dropped; repeating the call returns this same answer.") "payload_budget"),
    ("payload_budget", payloadBudget ["response"])]

/-- A response over the limit is changed, and measured again where the change left rows out. -/
def ifOverCap (steps : Nat) (change : Measured → Json × Bool) (measured : Measured) :
    Option Measured :=
  if measured.bytes ≤ capBytes then some measured
  else
    let (response, shed) := change measured
    if shed then recordPayloadBytes steps response else some ⟨response, measured.bytes⟩

/-- This is `finish_verify_program_step_response`. The count bounds each measuring loop. -/
def finishResponse (steps : Nat) (response : Json) : Option Json :=
  let budget := payloadBudget
    ["order", "verification_order", "scc_groups", "conclusions", "project_state"]
  recordPayloadBytes steps (response.insert "payload_budget" budget)
    |>.bind (ifOverCap steps (omitPreviews 1))
    |>.bind (ifOverCap steps (omitPreviews 0))
    |>.bind (ifOverCap steps omitBlocked)
    |>.bind (ifOverCap steps dropAction)
    |>.bind (ifOverCap steps fun _ => (truncatedPayload, true))
    |>.map Measured.response

end FramaCMcp.ResponseBudget
