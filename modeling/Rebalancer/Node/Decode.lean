import Rebalancer.Json.Record
import Rebalancer.Node

set_option autoImplicit false

/-! # The node's answers in JSON -/

namespace Rebalancer

open Json

/-- Reads one half of the gossip. -/
def Announcement.ofJson? (j : Json) : Option Announcement := do
  let f ← j.record? ["source", "destination", "short_channel_id", "amount_msat", "active",
    "base_fee_millisatoshi", "fee_per_millionth", "delay", "htlc_minimum_msat",
    "htlc_maximum_msat"] 8
  return {
    source := ← f.required "source" text?
    destination := ← f.required "destination" text?
    scid := ← f.required "short_channel_id" text?
    capacity := ← f.required "amount_msat" word?
    active := ← f.required "active" bool?
    baseFee := ← f.required "base_fee_millisatoshi" word?
    rate := ← f.required "fee_per_millionth" word?
    delay := ← f.required "delay" word32?
    htlcMin := ← f.defaulted "htlc_minimum_msat" 0 word?
    htlcMax := ← f.optional "htlc_maximum_msat" word? }

/-- Reads one node of the gossip. -/
def NodeAnnouncement.ofJson? (j : Json) : Option NodeAnnouncement := do
  let f ← j.record? ["nodeid", "alias"] 1
  return { id := ← f.required "nodeid" text?, nickname := ← f.optional "alias" text? }

/-- Reads a policy. -/
def Policy.ofJson? (j : Json) : Option Policy := do
  let f ← j.record? ["htlc_minimum_msat", "htlc_maximum_msat", "cltv_expiry_delta",
    "fee_base_msat", "fee_proportional_millionths"] 0
  return {
    htlcMin := ← f.defaulted "htlc_minimum_msat" 0 word?
    htlcMax := ← f.defaulted "htlc_maximum_msat" 0 word?
    delay := ← f.defaulted "cltv_expiry_delta" 0 word32?
    baseFee := ← f.defaulted "fee_base_msat" 0 word?
    rate := ← f.defaulted "fee_proportional_millionths" 0 word? }

/-- Reads the policies of both sides. -/
def Policies.ofJson? (j : Json) : Option Policies := do
  let f ← j.record? ["local", "remote"] 2
  return {
    own := ← f.optional "local" Policy.ofJson?
    remote := ← f.optional "remote" Policy.ofJson? }

/-- Reads the record of an own channel. -/
def OwnChannel.ofJson? (j : Json) : Option OwnChannel := do
  let f ← j.record? ["peer_id", "peer_connected", "state", "short_channel_id", "total_msat",
    "to_us_msat", "spendable_msat", "receivable_msat", "updates"] 3
  return {
    peer := ← f.required "peer_id" text?
    connected := ← f.required "peer_connected" bool?
    state := ← f.required "state" text?
    scid := ← f.optional "short_channel_id" text?
    total := ← f.defaulted "total_msat" 0 word?
    toUs := ← f.defaulted "to_us_msat" 0 word?
    spendable := ← f.defaulted "spendable_msat" 0 word?
    receivable := ← f.defaulted "receivable_msat" 0 word?
    policies := ← f.optional "updates" Policies.ofJson? }

/-- Reads an error. -/
def RpcError.ofJson? (j : Json) : Option RpcError := do
  let f ← j.record? ["code", "message", "data"] 2
  return {
    code := ← f.required "code" signed?
    message := ← f.required "message" text?
    data := ← f.optional "data" (sound? 1) }

/-- Reads who the node is. -/
def NodeInfo.ofJson? (j : Json) : Option NodeInfo := do
  let f ← j.record? ["id", "alias"] 1
  return { id := ← f.required "id" text?, nickname := ← f.defaulted "alias" "" text? }

/-- Reads an invoice. -/
def Invoice.ofJson? (j : Json) : Option Invoice := do
  let f ← j.record? ["payment_hash", "payment_secret"] 2
  return {
    hash := ← f.required "payment_hash" text?
    secret := ← f.required "payment_secret" text? }

/-- Reads the amounts of a settled payment: what was delivered and what was sent. -/
def PaymentOutcome.completeOfJson? (j : Json) : Option (Msat × Msat) := do
  let f ← j.record? ["amount_msat", "amount_sent_msat"] 2
  return (← f.required "amount_msat" word?, ← f.required "amount_sent_msat" word?)

/-- Reads the only field of a record, a list. -/
def listField? {α : Type} (name : String) (decode : Json → Option α) (j : Json) :
    Option (List α) := do
  let f ← j.record? [name] 1
  f.required name (Json.list? decode)

end Rebalancer
