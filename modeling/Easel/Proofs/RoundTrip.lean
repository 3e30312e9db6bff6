import Easel.Exchange.Layout
import Easel.Exchange.Report
import Easel.Proofs.JsonText

/-!
# What is written can be read

Every value that has both a written and a read form in JSON is what its own text says.
A record is written with one field for each of its parts, and an absent part has no
field; so for each name the fields of that name are the part's own, and reading them one
after the other gives the parts back.

Main statement: `written_text_is_read_back`, for layouts, preset blocks, sheets, points,
colours, tables of prices and reports.
-/

namespace Easel

/-! ## Fields of records -/

namespace Json

variable {α : Type}

/-- Among the fields of one part only those of its own name are found. -/
theorem filter_optionalField (name other : String) (write : α → Json) (part : Option α) :
    (optionalField other write part).filter (·.1 = name) =
      if other = name then optionalField other write part else [] := by
  cases part with
  | none => simp [optionalField]
  | some a => simp [optionalField, List.filter_cons]

/-- It makes no difference whether a part is written before or in its field. -/
theorem optionalField_map (name : String) (write : α → Json) (part : Option α) :
    optionalField name id (part.map write) = optionalField name write part := by
  cases part <;> rfl

theorem optionalField_some (name : String) (v : Json) :
    optionalField name id (some v) = [(name, v)] := rfl

/-- A part is read from the fields of its name, of which there is one or none. -/
theorem field?_eq_some {name : String} {fields : List (String × Json)} {part : Option Json}
    (h : fields.filter (·.1 = name) = optionalField name id part) :
    field? name fields = some part := by
  unfold field?
  rw [h]
  cases part <;> rfl

/-- A record is read as its parts, if the fields of each name are those of one part. -/
theorem record?_object {fields : List (String × Json)} {names : List String}
    {parts : List (Option Json)}
    (h : List.Forall₂
      (fun name part => fields.filter (·.1 = name) = optionalField name id part) names parts) :
    record? names (object fields) = some parts := by
  show (names.mapM fun name => field? name fields) = some parts
  induction h with
  | nil => rfl
  | cons hpart _ ih =>
    rw [List.mapM_cons, field?_eq_some hpart, ih]
    rfl

/-- An optional part is read back if the part is and is never written as null. -/
theorem optional?_map {read : Json → Option α} {write : α → Json} {part : Option α}
    (h : ∀ a ∈ part, read (write a) = some a) (hnull : ∀ a, write a ≠ null) :
    optional? read (part.map write) = some part := by
  cases part with
  | none => rfl
  | some a =>
    show optional? read (some (write a)) = some (some a)
    unfold optional?
    split
    next heq => cases heq
    next heq => exact absurd (Option.some.inj heq) (hnull a)
    next v heq =>
      obtain rfl := Option.some.inj heq
      rw [h a rfl]
      rfl

/-- Items are read back one by one. -/
theorem mapM_map {read : Json → Option α} {write : α → Json}
    (h : ∀ a, read (write a) = some a) (parts : List α) :
    (parts.map write).mapM read = some parts := by
  induction parts with
  | nil => rfl
  | cons a parts ih =>
    rw [List.map_cons, List.mapM_cons, h, ih]
    rfl

/-- What holds of each part as it is written holds of the items. -/
theorem allItems_map {p : Json → Bool} {write : α → Json} (h : ∀ a, (write a).all p)
    (parts : List α) : allItems p (parts.map write) := by
  induction parts with
  | nil => rfl
  | cons a parts ih =>
    rw [List.map_cons, allItems, h, ih]
    rfl

/-- What holds of all fields holds of the first ones and of the others. -/
theorem allFields_append {p : Json → Bool} (fs gs : List (String × Json)) :
    allFields p (fs ++ gs) = (allFields p fs && allFields p gs) := by
  induction fs with
  | nil => rfl
  | cons f fs ih => rw [List.cons_append, allFields, allFields, ih, Bool.and_assoc]

/-- What holds of a part as it is written holds of its field, also if there is none. -/
theorem allFields_optionalField {p : Json → Bool} {write : α → Json} {part : Option α}
    (h : ∀ a ∈ part, (write a).all p) (name : String) :
    allFields p (optionalField name write part) := by
  cases part with
  | none => rfl
  | some a =>
    rw [optionalField, allFields, h a rfl]
    rfl

end Json

/-! ## Points, colours and tables -/

/-- A point is told by its coordinates, which are in range. -/
theorem Point.ofNat?_eq (p : Point) : Point.ofNat? p.x p.y = some p :=
  dif_pos ⟨p.x_lt, p.y_lt⟩

theorem Point.ofJson?_toJson (p : Point) : Point.ofJson? p.toJson = some p :=
  p.ofNat?_eq

/-- A colour is read back from its form in JSON, since its channels are in range. -/
theorem Rgba.ofJson?_toJson (c : Rgba) : Rgba.ofJson? c.toJson = some c := by
  show (if _ then _ else _) = _
  rw [if_pos ⟨c.r.toNat_lt, c.g.toNat_lt, c.b.toNat_lt, c.a.toNat_lt⟩]
  simp

theorem CostTable.ofJson?_toJson (t : CostTable) : CostTable.ofJson? t.toJson = some t := by
  cases t <;> rfl

/-! ## Records -/

/-- A preset block is read back from its form in JSON, with or without a colour and an anchor. -/
theorem Preset.ofJson?_toJson (p : Preset) : Preset.ofJson? p.toJson = some p := by
  have hcolour := Json.optional?_map (fun c (_ : c ∈ p.colour) => c.ofJson?_toJson) fun _ => nofun
  have hanchor := Json.optional?_map (fun a (_ : a ∈ p.anchor) => a.ofJson?_toJson) fun _ => nofun
  have hrecord : p.toJson.record? ["blockId", "bottomLeft", "topRight", "color",
      "pngBottomLeftPoint"] = some [some (.string p.id), some p.bottomLeft.toJson,
        some p.topRight.toJson, p.colour.map Rgba.toJson, p.anchor.map Point.toJson] := by
    apply Json.record?_object
    simp [Json.filter_optionalField, Json.optionalField_map, Json.optionalField_some]
  unfold Preset.ofJson?
  rw [hrecord]
  simp [Json.string?, Point.ofJson?_toJson, hcolour, hanchor]

/-- Pixels are read back in their order. -/
theorem Picture.pixelsOfJson?_pixelsToJson (pixels : Array Rgba) :
    Picture.pixelsOfJson? (Picture.pixelsToJson pixels) = some pixels := by
  show ((pixels.toList.map Rgba.toJson).mapM Rgba.ofJson?).bind _ = _
  rw [Json.mapM_map Rgba.ofJson?_toJson]
  rfl

/-- A layout is read back from its form in JSON, whichever of its optional parts are there. -/
theorem Layout.ofJson?_toJson (l : Layout) : Layout.ofJson? l.toJson = some l := by
  have hstring : ∀ text ∈ l.sourceName, Json.string? (.string text) = some text := fun _ _ => rfl
  have hname := Json.optional?_map hstring fun _ => nofun
  have hpixels := Json.optional?_map
    (fun pixels (_ : pixels ∈ l.sourcePixels) => Picture.pixelsOfJson?_pixelsToJson pixels)
    fun _ => nofun
  have hrecord : l.toJson.record? ["width", "height", "blocks", "sourcePngJSON",
      "sourcePngData"] = some [some (.natural l.size.x), some (.natural l.size.y),
        some (.array (l.presets.map Preset.toJson)), l.sourceName.map Json.string,
        l.sourcePixels.map Picture.pixelsToJson] := by
    apply Json.record?_object
    simp [Json.filter_optionalField, Json.optionalField_map, Json.optionalField_some]
  have hpresets : presetsOfJson? (some (.array (l.presets.map Preset.toJson))) = some l.presets :=
    Json.mapM_map Preset.ofJson?_toJson l.presets
  have hsize : Point.ofExtent? (.natural l.size.x) (.natural l.size.y) = some l.size :=
    l.size.ofNat?_eq
  unfold Layout.ofJson?
  rw [hrecord]
  simp [hsize, hpresets, hname, hpixels]

/-- A sheet is read back from its form in JSON. -/
theorem Sheet.ofJson?_toJson (s : Sheet) : Sheet.ofJson? s.toJson = some s := by
  have hrecord : s.toJson.record? ["width", "height", "background"] =
      some [some (.natural s.size.x), some (.natural s.size.y), some s.background.toJson] := by
    apply Json.record?_object
    simp [Json.optionalField_some]
  have hsize : Point.ofExtent? (.natural s.size.x) (.natural s.size.y) = some s.size :=
    s.size.ofNat?_eq
  unfold Sheet.ofJson?
  rw [hrecord]
  simp [hsize, Rgba.ofJson?_toJson]

/-! ## Reports -/

/-- The numbers of the report are of 64 bits. -/
def Report.Fits : Report → Prop
  | success cost => cost < 18446744073709551616
  | error _ line => ∀ n ∈ line, n < 18446744073709551616

/-- A number of 64 bits is one that can be held. -/
theorem Json.holds_natural {n : Nat} (hn : n < 18446744073709551616) :
    (Json.natural n).holds := by
  show (decide (n < 18446744073709551616) || _) = true
  rw [decide_eq_true hn, Bool.true_or]

/-- A report of which no other field has fields of its own is read by its result. -/
theorem Report.ofJson?_object {kind : String} {rest : List (String × Json)}
    (hnames : ∀ f ∈ rest, f.1 ≠ "result") (hdepth : Json.depthOfFields rest = 0)
    (hholds : Json.allFields Json.holds rest) :
    Report.ofJson? (.object (("result", .string kind) :: rest)) =
      ofResult? (.string kind) (.object rest) := by
  have hnone : rest.filter (·.1 = "result") = [] :=
    List.filter_eq_nil_iff.2 fun f hf => by simpa using hnames f hf
  have hrest : rest.filter (·.1 ≠ "result") = rest :=
    List.filter_eq_self.2 fun f hf => by simpa using hnames f hf
  unfold ofJson?
  rw [if_pos]
  · simp only [List.filter_cons, decide_true, if_true, hnone, ne_eq, not_true, decide_false,
      Bool.false_eq_true, if_false]
    rw [hrest]
  · constructor
    · simp [Json.depth, Json.depthOfFields, hdepth, Json.maxDepth]
    · simp [Json.all, Json.allFields, Json.holds, hholds]

/-- A report is read back from its form in JSON, if its numbers can be held. -/
theorem Report.ofJson?_toJson {r : Report} (hr : r.Fits) : Report.ofJson? r.toJson = some r := by
  cases r with
  | success cost =>
    have hcost : cost < 18446744073709551616 := hr
    have hrecord : (Json.object [("cost", .natural cost)]).record? ["cost"] =
        some [some (.natural cost)] := by
      apply Json.record?_object
      simp [Json.optionalField_some]
    rw [toJson, ofJson?_object]
    · show successOf? _ = _
      unfold successOf?
      rw [hrecord]
      simp [Json.natural?, hcost]
    · simp
    · simp [Json.depth, Json.depthOfFields]
    · simp [Json.all, Json.allFields, Json.holds_natural hcost]
  | error text line =>
    have hline : ∀ n ∈ line, n < 18446744073709551616 := hr
    have hwritten : toJson (.error text line) = .object (("result", .string "error") ::
        ("err", .string text) :: Json.optionalField "line" Json.natural line) := by
      cases line <;> rfl
    have hrecord : (Json.object (("err", .string text) ::
        Json.optionalField "line" Json.natural line)).record? ["err", "line"] =
          some [some (.string text), line.map Json.natural] := by
      apply Json.record?_object
      simp [Json.filter_optionalField, Json.optionalField_map, Json.optionalField_some]
    have hread : ∀ n ∈ line, Json.natural? 18446744073709551616 (.natural n) = some n :=
      fun n hn => if_pos (hline n hn)
    have hholds : ∀ n ∈ line, (Json.natural n).all Json.holds :=
      fun n hn => Json.holds_natural (hline n hn)
    rw [hwritten, ofJson?_object]
    · show errorOf? _ = _
      unfold errorOf?
      rw [hrecord]
      simp [Json.string?, Json.optional?_map hread fun _ => nofun]
    · cases line <;> simp [Json.optionalField]
    · cases line <;> simp [Json.optionalField, Json.depth, Json.depthOfFields]
    · simp [Json.all, Json.allFields, Json.holds, Json.allFields_optionalField hholds]

/-! ## Texts -/

theorem Point.plain_toJson (p : Point) : p.toJson.all Json.plain := rfl

theorem Rgba.plain_toJson (c : Rgba) : c.toJson.all Json.plain := rfl

/-- A preset block is written with plain whole numbers and whole texts only. -/
theorem Preset.plain_toJson (p : Preset) : p.toJson.all Json.plain := by
  have hcolour := Json.allFields_optionalField
    (fun c (_ : c ∈ p.colour) => c.plain_toJson) "color"
  have hanchor := Json.allFields_optionalField
    (fun a (_ : a ∈ p.anchor) => a.plain_toJson) "pngBottomLeftPoint"
  simp [toJson, Json.all, Json.allFields_append, hcolour, hanchor, Json.allFields, Json.plain,
    Point.plain_toJson]

theorem Picture.plain_pixelsToJson (pixels : Array Rgba) :
    (Picture.pixelsToJson pixels).all Json.plain :=
  Json.allItems_map Rgba.plain_toJson pixels.toList

/-- A layout is written with plain whole numbers and whole texts only. -/
theorem Layout.plain_toJson (l : Layout) : l.toJson.all Json.plain := by
  have hpresets := Json.allItems_map Preset.plain_toJson l.presets
  have hstring : ∀ text ∈ l.sourceName, (Json.string text).all Json.plain := fun _ _ => rfl
  have hname := Json.allFields_optionalField hstring "sourcePngJSON"
  have hpixels := Json.allFields_optionalField
    (fun pixels (_ : pixels ∈ l.sourcePixels) => Picture.plain_pixelsToJson pixels) "sourcePngData"
  simp [toJson, Json.all, Json.allFields_append, hpresets, hname, hpixels, Json.allFields,
    Json.plain]

/-- A report is written with plain whole numbers and whole texts only. -/
theorem Report.plain_toJson (r : Report) : r.toJson.all Json.plain := by
  cases r with
  | success cost => rfl
  | error text line => cases line <;> rfl

/-- A value is read back from its text, if it is from its form in JSON. -/
theorem Json.bind_read?_compact {α : Type} {read : Json → Option α} {v : Json} {a : α}
    (hv : v.all plain) (hread : read v = some a) : (read? v.compact).bind read = some a := by
  rw [read?_compact hv, Option.bind_some, hread]

/-- What is read from the text that is written for a value is the value: for a layout with
any presets, any of its optional parts and any texts; for a preset block, a sheet, a point,
a colour and a table of prices; and for a report of which the numbers are of 64 bits. -/
theorem written_text_is_read_back :
    (∀ l : Layout, Layout.ofText l.toJson.compact = .ok l) ∧
    (∀ p : Preset, (Json.read? p.toJson.compact).bind Preset.ofJson? = some p) ∧
    (∀ s : Sheet, (Json.read? s.toJson.compact).bind Sheet.ofJson? = some s) ∧
    (∀ p : Point, (Json.read? p.toJson.compact).bind Point.ofJson? = some p) ∧
    (∀ c : Rgba, (Json.read? c.toJson.compact).bind Rgba.ofJson? = some c) ∧
    (∀ t : CostTable, (Json.read? t.toJson.compact).bind CostTable.ofJson? = some t) ∧
    (∀ r : Report, r.Fits → (Json.read? r.text).bind Report.ofJson? = some r) := by
  refine ⟨fun l => ?_, fun p => ?_, fun s => ?_, fun p => ?_, fun c => ?_, fun t => ?_,
    fun r hr => ?_⟩
  · rw [Layout.ofText, Json.bind_read?_compact l.plain_toJson l.ofJson?_toJson]
  · exact Json.bind_read?_compact p.plain_toJson p.ofJson?_toJson
  · exact Json.bind_read?_compact rfl s.ofJson?_toJson
  · exact Json.bind_read?_compact p.plain_toJson p.ofJson?_toJson
  · exact Json.bind_read?_compact c.plain_toJson c.ofJson?_toJson
  · exact Json.bind_read?_compact rfl t.ofJson?_toJson
  · exact Json.bind_read?_compact r.plain_toJson (Report.ofJson?_toJson hr)

/-- An error of which the text needs every kind of escape, in the last line of all. -/
theorem written_text_is_read_back_escaped :
    ∃ r : Report, r.Fits ∧
      r.text =
        "\x7b\"result\":\"error\",\"err\":\"\\\"\\\\\\n\\u001fé😀\",\"line\":18446744073709551615\x7d" ∧
      (Json.read? r.text).bind Report.ofJson? = some r := by
  have hfits : (Report.error "\"\\\n\x1fé😀" (some 18446744073709551615)).Fits := by
    intro n hn
    cases hn
    decide
  exact ⟨_, hfits, by decide +kernel, written_text_is_read_back.2.2.2.2.2.2 _ hfits⟩

end Easel
