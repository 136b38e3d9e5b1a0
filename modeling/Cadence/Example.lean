/-
Two small programs.

* `Example.runOnce` — stores a flow, runs it once and shows its log;
* `Example.watch` — stores a flow, unless it is there already, and sweeps the store for five
  minutes.
-/
import Cadence.Command.Desk

namespace Cadence.Example

open Cadence Act

/-- A reference to a value inside a text. -/
def valueAt (path : String) : String := "$\x7b" ++ path ++ "\x7d"

/-- A flow that shows the title of a document, every hour. -/
def hello : Flow where
  name := "Hello Flow"
  schedule := "0 * * * *"
  enabled := true
  steps := [
    .fetch ⟨"ip", "https://httpbin.org/json", .get, none, none, none⟩,
    .log ("Slideshow: " ++ valueAt "ip.body.slideshow.title") none]

/-- A flow that tells of a price above a threshold, every five minutes. -/
def priceAlert : Flow where
  name := "BTC Price Alert"
  schedule := "*/5 * * * *"
  enabled := true
  steps := [
    .fetch ⟨"price", "https://api.coingecko.com/api/v3/simple/price?ids=bitcoin&vs_currencies=usd",
      .get, none, none, some 5000⟩,
    .condition ⟨"price.body.bitcoin.usd", .gt, .int 40000⟩,
    .log ("BTC above threshold: " ++ valueAt "price.body.bitcoin.usd") none,
    .notify ⟨.slack, "https://hooks.slack.com/services/T000/B000/XXXX",
      some ("BTC is trading at " ++ valueAt "price.body.bitcoin.usd" ++ " USD"), none, none⟩]

/-- The stored flow that a request answers with, or why there is none. -/
def storeNew (f : Flow) : Act (Except StoreFault StoredFlow) := do
  match ← request (.create f) with
  | .error fault => pure (.error fault)
  | .ok a =>
    match a.flow? with
    | some f => pure (.ok f)
    | none => broken .unfinished

/-- Stores a flow, runs it once and shows its log. -/
def runOnce : Act Unit := do
  openStore
  match ← storeNew hello with
  | .error fault => broken (.store fault)
  | .ok f =>
    match ← runFlow Settings.defaults.client f.id with
    | .error fault => broken (.store fault)
    | .ok r =>
      say s!"Run {r.id} finished with status {r.status.word}"
      sayAll (r.log.map ("  " ++ ·))

/-- The flow that a file defines, or the price alert without a file. -/
def watched (path : Option String) : Act Flow := do
  match path with
  | none => pure priceAlert
  | some path =>
    match Flow.load (← get).host path with
    | .ok f => pure f
    | .error fault => broken (.file fault)

/-- How long the store is swept, in microseconds. -/
def watchTime : Int := 5 * Calendar.minute

/-- Stores a flow, unless it is there already, and sweeps the store. -/
def watch (path : Option String) : Act Unit := do
  openStore
  let f ← watched path
  match ← storeNew f with
  | .ok _ => pure ()
  | .error (.problem (.flowExists id)) => say s!"Reusing stored flow: {id}"
  | .error fault => broken (.store fault)
  sweep Settings.defaults.client (Calendar.secondsMicros Settings.defaults.interval).toNat
    (some watchTime)

end Cadence.Example
