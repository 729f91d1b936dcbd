import DeviceDescription.Description

/-!
# The tree in an element

What a description says, by recursion over the elements alone: no paths, no positions and no tables. The
text of a field stands in the first child of its name, and a list holds all children of the name of its
items.
-/
namespace DeviceDescription.SchemaTree

-- The namespace that stands for the device schema.
variable (uri : Text)

def named (name : Text) (es : List XmlElement) : List XmlElement :=
  es.filter fun e => e.name = name ∧ e.namespaceUri = some uri

def child? (name : Text) (e : XmlElement) : Option XmlElement := (named uri name e.children).head?

/-- The trimmed text of the first child of a name, unless it is empty. -/
def text? (name : Text) (e : XmlElement) : Option Text :=
  ((child? uri name e).map fun x => Text.trim x.directText).filter (· ≠ [])

def number? (bound : Nat) (name : Text) (e : XmlElement) : Option Nat :=
  (text? uri name e).bind (Numeral.read? bound)

def items (list item : Text) (e : XmlElement) : List XmlElement :=
  (child? uri list e).elim [] fun l => named uri item l.children

private theorem sizeOf_lt_of_mem_named {name : Text} {e x : XmlElement} (h : x ∈ named uri name e.children) :
    sizeOf x < sizeOf e :=
  DocumentContext.sizeOf_lt_of_mem_children (c := ⟨.element e, .empty⟩) (List.mem_filter.mp h).1

theorem sizeOf_lt_of_mem_items {list item : Text} {e x : XmlElement} (h : x ∈ items uri list item e) :
    sizeOf x < sizeOf e := by
  unfold items at h
  cases hl : child? uri list e with
  | none => simp [hl] at h
  | some l =>
    rw [hl] at h
    exact Nat.lt_trans (sizeOf_lt_of_mem_named uri h) (sizeOf_lt_of_mem_named uri (List.mem_of_head? hl))

/-- The elements of a device and of all devices embedded in it, each before those embedded in it. -/
def devices (e : XmlElement) : List XmlElement :=
  e :: (items uri "deviceList" "device" e).attach.flatMap fun x => devices x.1
termination_by sizeOf e
decreasing_by exact sizeOf_lt_of_mem_items _ x.2

theorem devices_eq (e : XmlElement) :
    devices uri e = e :: (items uri "deviceList" "device" e).flatMap (devices uri) := by
  rw [devices]
  simp [List.flatMap_def]

variable [InternationalNames]

def url? (base : Url) (name : Text) (e : XmlElement) : Option Url :=
  (text? uri name e).bind fun t => (UrlReference.resolve (some base) (some t)).toOption.join

def icon? (base : Url) (e : XmlElement) : Option Icon := do
  some {
    mimeType := ← text? uri "mimetype" e
    width := ← number? uri Numeral.maxWord32 "width" e
    height := ← number? uri Numeral.maxWord32 "height" e
    depth := ← number? uri Numeral.maxWord32 "depth" e
    url := url? uri base "url" e }

def service? (base : Url) (e : XmlElement) : Option Service := do
  some {
    serviceType := ← text? uri "serviceType" e
    serviceId := ← text? uri "serviceId" e
    scpdUrl := ← url? uri base "SCPDURL" e
    controlUrl := ← url? uri base "controlURL" e
    eventSubUrl := url? uri base "eventSubURL" e }

def info? (base : Url) (e : XmlElement) : Option DeviceInfo := do
  some {
    deviceType := ← text? uri "deviceType" e
    friendlyName := ← text? uri "friendlyName" e
    modelName := ← text? uri "modelName" e
    udn := ← text? uri "UDN" e
    manufacturer := text? uri "manufacturer" e
    manufacturerUrl := url? uri base "manufacturerURL" e
    presentationUrl := url? uri base "presentationURL" e
    modelDescription := text? uri "modelDescription" e
    modelNumber := text? uri "modelNumber" e
    modelUrl := text? uri "modelURL" e
    serialNumber := text? uri "serialNumber" e
    upc := number? uri Numeral.maxWord64 "UPC" e }

/-- The device that an element describes, with all devices embedded in it. -/
def device? (bases : Bases) (e : XmlElement) : Option Device := do
  some {
    info := ← info? uri bases.device e
    icons := ← (items uri "iconList" "icon" e).mapM (icon? uri bases.device)
    services := ← (items uri "serviceList" "service" e).mapM (service? uri bases.services)
    children := ← (items uri "deviceList" "device" e).attach.mapM fun x => device? bases x.1 }
termination_by sizeOf e
decreasing_by exact sizeOf_lt_of_mem_items _ x.2

theorem device?_eq (bases : Bases) (e : XmlElement) :
    device? uri bases e = (do
      some {
        info := ← info? uri bases.device e
        icons := ← (items uri "iconList" "icon" e).mapM (icon? uri bases.device)
        services := ← (items uri "serviceList" "service" e).mapM (service? uri bases.services)
        children := ← (items uri "deviceList" "device" e).mapM (device? uri bases) }) := by
  rw [device?]
  simp

def declaredBase? (root : XmlElement) : Option Url := (text? uri "URLBase" root).bind fun t => (Url.read t).toOption

/-- A declared base serves all references. Else those of devices are resolved next to the document and
those of services against it. -/
def bases? (location : Url) (root : XmlElement) : Option Bases :=
  match declaredBase? uri root with
  | some base => some ⟨base, base⟩
  | none => location.directory.toOption.map fun directory => ⟨directory, location⟩

/-- The device at the top of a document, found among the elements at its outermost level. -/
def top? (location : Url) (es : List XmlElement) : Option Device := do
  let root ← (named uri "root" es).head?
  device? uri (← bases? uri location root) (← child? uri "device" root)

end DeviceDescription.SchemaTree
