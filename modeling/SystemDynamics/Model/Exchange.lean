import SystemDynamics.Model.Document
import SystemDynamics.Json.Record

namespace SystemDynamics

open Json (Reader Field Record Value)

def TimeUnit.reader : Reader TimeUnit :=
  .choice "string or map" (TimeUnit.all.map fun u ↦ (u.name, u))

def Horizon.record : Record Horizon where
  name := "TimeConfig"
  fields := [
    .of "start" .float fun x h ↦ { h with start := x },
    .of "end" .float fun x h ↦ { h with stop := x },
    .of "dt" .float fun x h ↦ { h with step := x },
    .of "unit" TimeUnit.reader fun u h ↦ { h with unit := u }]
  isClosed := true
  blank := .unsaid

def Stock.record : Record Stock where
  name := "StockDecl"
  fields := [
    .of "id" .text fun x s ↦ { s with id := x },
    .of "name" .text fun x s ↦ { s with name := x },
    .of "initial_value" (.optional .float) fun x s ↦ { s with initialValue := x },
    .of "unit" .text fun x s ↦ { s with unit := x },
    .of "description" (.optional .text) fun x s ↦ { s with description := x }]
  isClosed := true
  blank := {}

def Flow.record : Record Flow where
  name := "FlowDecl"
  fields := [
    .of "id" .text fun x f ↦ { f with id := x },
    .of "name" .text fun x f ↦ { f with name := x },
    .of "from_stock" (.optional .text) fun x f ↦ { f with source := x },
    .of "to_stock" (.optional .text) fun x f ↦ { f with target := x },
    .of "equation" .text fun x f ↦ { f with equation := x },
    .of "unit" .text fun x f ↦ { f with unit := x },
    .of "description" (.optional .text) fun x f ↦ { f with description := x }]
  isClosed := true
  blank := {}

def Parameter.record : Record Parameter where
  name := "ParameterDecl"
  fields := [
    .of "id" .text fun x p ↦ { p with id := x },
    .of "name" .text fun x p ↦ { p with name := x },
    .of "value" (.optional .float) fun x p ↦ { p with value := x },
    .of "unit" .text fun x p ↦ { p with unit := x },
    .of "description" (.optional .text) fun x p ↦ { p with description := x }]
  isClosed := true
  blank := {}

def Auxiliary.record : Record Auxiliary where
  name := "AuxiliaryDecl"
  fields := [
    .of "id" .text fun x a ↦ { a with id := x },
    .of "name" .text fun x a ↦ { a with name := x },
    .of "equation" .text fun x a ↦ { a with equation := x },
    .of "unit" .text fun x a ↦ { a with unit := x },
    .of "description" (.optional .text) fun x a ↦ { a with description := x }]
  isClosed := true
  blank := {}

def Document.record : Record Document where
  name := "ModelDocument"
  fields := [
    .of "company" (.optional .text) fun x d ↦ { d with company := x },
    .of "name" .text fun x d ↦ { d with name := x },
    .of "description" .text fun x d ↦ { d with description := x },
    .of "stocks" (.list Stock.record.reader) fun x d ↦ { d with stocks := x },
    .of "flows" (.list Flow.record.reader) fun x d ↦ { d with flows := x },
    .of "parameters" (.list Parameter.record.reader) fun x d ↦ { d with parameters := x },
    .of "auxiliaries" (.list Auxiliary.record.reader) fun x d ↦ { d with auxiliaries := x },
    .of "time" (.optional Horizon.record.reader) fun x d ↦ { d with horizon := x }]
  isClosed := true
  blank := {}

def Document.ofJson (text : String) : Except Json.Failure Document :=
  Document.record.reader.read text

def Document.ofValue (v : Value) : Except Json.Failure Document :=
  Document.record.reader.ofValue v

def presentField {α : Type} (name : String) (write : α → Value) (a : Option α) :
    List (String × Value) :=
  (a.map fun a ↦ (name, write a)).toList

def orNull {α : Type} (write : α → Value) (a : Option α) : Value :=
  a.elim .null write

def Horizon.toJson (h : Horizon) : Value :=
  .object [("start", .ofFloat h.start), ("end", .ofFloat h.stop), ("dt", .ofFloat h.step),
    ("unit", .text h.unit.name)]

def Stock.toJson (s : Stock) : Value :=
  .object ([("id", .text s.id), ("name", .text s.name),
    ("initial_value", orNull .ofFloat s.initialValue), ("unit", .text s.unit)] ++
    presentField "description" .text s.description)

def Flow.toJson (f : Flow) : Value :=
  .object ([("id", .text f.id), ("name", .text f.name), ("from_stock", orNull .text f.source),
    ("to_stock", orNull .text f.target), ("equation", .text f.equation), ("unit", .text f.unit)] ++
    presentField "description" .text f.description)

def Parameter.toJson (p : Parameter) : Value :=
  .object ([("id", .text p.id), ("name", .text p.name), ("value", orNull .ofFloat p.value),
    ("unit", .text p.unit)] ++ presentField "description" .text p.description)

def Auxiliary.toJson (a : Auxiliary) : Value :=
  .object ([("id", .text a.id), ("name", .text a.name), ("equation", .text a.equation),
    ("unit", .text a.unit)] ++ presentField "description" .text a.description)

def Document.toJson (d : Document) : Value :=
  .object (presentField "company" .text d.company ++
    [("name", .text d.name), ("description", .text d.description),
      ("stocks", .list (d.stocks.map Stock.toJson)), ("flows", .list (d.flows.map Flow.toJson)),
      ("parameters", .list (d.parameters.map Parameter.toJson)),
      ("auxiliaries", .list (d.auxiliaries.map Auxiliary.toJson))] ++
    presentField "time" Horizon.toJson d.horizon)

def Document.pretty (d : Document) : String :=
  d.toJson.pretty

end SystemDynamics
