import Land.Lib.JsonSearch
import Land.Lib.Str

/-!
# Slot notifications

`parse_slot_notification` (`pubsub/src/parser.rs`) does not read its text as JSON: it searches for `"result":`,
then for the three fields, and takes the digits that follow each.  On the text of a JSON value, written without
white space, that is still what the value says: the fields are the first members of their names inside the first
`result`, in whatever order and among whatever other members, and a field that is not an unsigned 64 bit integer
is refused.
-/

namespace Land.Pubsub

open Scan (after)

/-- `SlotInfo`. -/
structure SlotInfo where
  slot : ℕ
  parent : ℕ
  root : ℕ
  deriving DecidableEq

/-- `SubscriptionId`. -/
structure SubscriptionId where
  id : ℕ
  deriving DecidableEq

/-- `extract_u64_field`. -/
def extractU64Field (json field : List Char) : Option ℕ := do
  let rest ← after (Json.key field) json
  -- up to the first character that is not a digit
  Str.parseUnsigned 64 (rest.takeWhile Char.isDigit)

/-- `parse_subscription_response`. -/
def parseSubscriptionResponse (json : List Char) : Option SubscriptionId :=
  (extractU64Field json "result".toList).map SubscriptionId.mk

/-- `parse_slot_notification`. -/
def parseSlotNotification (json : List Char) : Option SlotInfo := do
  let resultJson ← after (Json.key "result".toList) json
  let slot ← extractU64Field resultJson "slot".toList
  let parent ← extractU64Field resultJson "parent".toList
  let root ← extractU64Field resultJson "root".toList
  return ⟨slot, parent, root⟩

/-- The unsigned 64 bit integer that a value is. -/
def asU64 : Json → Option ℕ
  | .num false n [] => if n < 2 ^ 64 then some n else none
  | _ => none

/-! ## A field -/

theorem takeWhile_isDigit_of_head {l : List Char} (h : ∀ c ∈ l.head?, c.isDigit = false) :
    l.takeWhile Char.isDigit = [] := by
  cases l with
  | nil => rfl
  | cons c l => rw [List.takeWhile_cons, h c rfl, if_neg Bool.false_ne_true]

theorem parseUnsigned_nil : Str.parseUnsigned 64 [] = none := rfl

theorem follows_nil : Json.follows [] = true := rfl

theorem stops_of_follows {l : List Char} (h : Json.follows l = true) : Json.stops l = true := by
  cases l with
  | nil => rfl
  | cons c l =>
    simp only [Json.follows, List.head?_cons, Option.all_some, Bool.or_eq_true, decide_eq_true_eq] at h
    rcases h with (rfl | rfl) | rfl <;> rfl

/-- The digits at the start of a value are its number. -/
theorem parseUnsigned_takeWhile_render {v : Json} (hv : Json.integral v = true) {back : List Char}
    (hback : Json.follows back = true) :
    Str.parseUnsigned 64 ((Json.render v ++ back).takeWhile Char.isDigit) = asU64 v := by
  have hother {l : List Char} (h : ∀ c ∈ l.head?, c.isDigit = false) :
      Str.parseUnsigned 64 (l.takeWhile Char.isDigit) = none := by
    rw [takeWhile_isDigit_of_head h, parseUnsigned_nil]
  cases v with
  | num negative n tail =>
    obtain rfl : tail = [] := List.isEmpty_iff.1 hv
    cases negative with
    | true => exact hother (by rintro c ⟨⟩; rfl)
    | false =>
      have hdigits : (Nat.toDigits 10 n ++ back).takeWhile Char.isDigit = Nat.toDigits 10 n :=
        (Json.takeWhile_isDigit_append (fun c hc => Str.isDigit_of_mem hc) (stops_of_follows hback)).1
      have htext : Json.render (.num false n []) = Nat.toDigits 10 n := by
        simp [Json.render, Json.renderNumber]
      rw [htext, hdigits]
      exact Str.parseUnsigned_toDigits_eq 64 n
  | bool b => cases b <;> exact hother (by rintro c ⟨⟩; rfl)
  | _ => exact hother (by rintro c ⟨⟩; rfl)

/-- A field is found among all the members of a value, at any depth. -/
theorem extractU64Field_render {v u : Json} (hv : v.Plain) {field : List Char}
    (hfield : Json.isWord field = true) (hu : v.members.lookup field = some u) {rest : List Char}
    (hrest : Json.follows rest = true) : extractU64Field (v.render ++ rest) field = asU64 u := by
  obtain ⟨back, hback, hafter⟩ := hv.after_key hfield hu hrest
  rw [extractU64Field, hafter]
  exact parseUnsigned_takeWhile_render (hv.of_lookup hu).integral hback

theorem parseSubscriptionResponse_render {v u : Json} (hv : v.Plain)
    (hu : v.members.lookup "result".toList = some u) :
    parseSubscriptionResponse v.render = (asU64 u).map SubscriptionId.mk := by
  have h := extractU64Field_render hv (by decide) hu follows_nil
  rw [List.append_nil] at h
  rw [parseSubscriptionResponse, h]

/-! ## A notification -/

theorem parseSlotNotification_fields {v result slot parent root : Json} (hv : v.Plain)
    (hresult : v.members.lookup "result".toList = some result)
    (hslot : result.members.lookup "slot".toList = some slot)
    (hparent : result.members.lookup "parent".toList = some parent)
    (hroot : result.members.lookup "root".toList = some root) :
    parseSlotNotification v.render = do
      let slot ← asU64 slot
      let parent ← asU64 parent
      let root ← asU64 root
      return ⟨slot, parent, root⟩ := by
  obtain ⟨back, hback, hafter⟩ := hv.after_key (by decide) hresult follows_nil
  have hplain := hv.of_lookup hresult
  rw [List.append_nil] at hafter
  rw [parseSlotNotification, hafter]
  show (do
    let slot ← extractU64Field (result.render ++ back) "slot".toList
    let parent ← extractU64Field (result.render ++ back) "parent".toList
    let root ← extractU64Field (result.render ++ back) "root".toList
    return (⟨slot, parent, root⟩ : SlotInfo)) = _
  rw [extractU64Field_render hplain (by decide) hslot hback,
    extractU64Field_render hplain (by decide) hparent hback,
    extractU64Field_render hplain (by decide) hroot hback]

/-- A notification as the server writes it. -/
def slotNotification (info : SlotInfo) (subscription : ℕ) : Json :=
  .obj [("jsonrpc".toList, .str "2.0".toList), ("method".toList, .str "slotNotification".toList),
    ("params".toList, .obj [
      ("result".toList, .obj [("parent".toList, .num false info.parent []),
        ("root".toList, .num false info.root []), ("slot".toList, .num false info.slot [])]),
      ("subscription".toList, .num false subscription [])])]

end Land.Pubsub
