import DeviceDescription.Field

/-! # Services of devices -/
namespace DeviceDescription

variable [InternationalNames]

structure Service where
  serviceType : Text
  serviceId : Text
  scpdUrl : Url
  controlUrl : Url
  eventSubUrl : Option Url
  deriving DecidableEq, Repr

namespace Service

def summary (s : Service) : Text := "Service(" ++ s.serviceId ++ " @ " ++ s.controlUrl.text ++ ")"

structure Draft where
  serviceType : Text
  serviceId : Text
  scpdUrl : Option Url
  controlUrl : Option Url
  eventSubUrl : Option Url

def Draft.blank : Draft := ⟨[], [], none, none, none⟩

def fields : List (Field Draft) := [
  .mandatory "serviceType" .text fun v s => { s with serviceType := v.toText },
  .mandatory "serviceId" .text fun v s => { s with serviceId := v.toText },
  .mandatory "SCPDURL" .url fun v s => { s with scpdUrl := v.url? },
  .mandatory "controlURL" .url fun v s => { s with controlUrl := v.url? },
  .optional "eventSubURL" .url fun v s => { s with eventSubUrl := v.url? }]

def Draft.finish (d : Draft) : Except DescriptionError Service :=
  match d.scpdUrl, d.controlUrl with
  | none, _ => .error (.schemaViolation "SCPDURL")
  | _, none => .error (.schemaViolation "controlURL")
  | some scpdUrl, some controlUrl => .ok ⟨d.serviceType, d.serviceId, scpdUrl, controlUrl, d.eventSubUrl⟩

def read (base : Url) (c : DocumentContext) : Except DescriptionError Service := do
  (← (populate c (some base) fields Draft.blank).toExcept).finish

end Service
end DeviceDescription
