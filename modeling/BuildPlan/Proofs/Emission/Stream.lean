import BuildPlan.Proofs.Emission.Document

/-!
# Reading the stream back

A consumer of the stream cuts its bytes at the line feeds and reads each line as a record, whose tag says what it is. Since
no text of a record holds a line feed, the lines are the records, with nothing after the last one (`splitOn_lines`); and each
of them is read as what was written (`EmissionEvent.ofLine?_line`). So a consumer gets the same targets from the stream as
from the document (`stream_read_back`).
-/

namespace BuildPlan

/-! ### Bytes -/

namespace Text

/-- The bytes of a text. -/
def bytes (s : String) : List UInt8 := s.toUTF8.data.toList

/-- The bytes of a text are those of its characters. -/
theorem bytes_eq_flatMap (s : String) : bytes s = s.toList.flatMap String.utf8EncodeChar := by
  have hbytes : s.toUTF8 = s.toList.utf8Encode := by
    rw [← String.toByteArray_ofList, String.ofList_toList]
    rfl
  rw [bytes, hbytes, List.utf8Encode, List.data_toByteArray]

/-- A text is decoded from its bytes. -/
theorem fromUTF8?_bytes (s : String) : String.fromUTF8? (bytes s).toByteArray = some s := by
  have hbytes : (bytes s).toByteArray = s.toByteArray := by
    rw [ByteArray.ext_iff, List.data_toByteArray]
    rfl
  rw [hbytes, String.fromUTF8?, dif_pos s.isValidUTF8]
  rfl

/-- No character from the blank on has a line feed among its bytes: a single byte is the character itself, and every byte of a
longer encoding is at least 128. -/
theorem lineFeed_not_mem_utf8EncodeChar {c : Char} (h : 0x20 ≤ c.toNat) : (10 : UInt8) ∉ String.utf8EncodeChar c := by
  have hbyte : ∀ n : Nat, n % 256 ≠ 10 → (10 : UInt8) ≠ UInt8.ofNat n := by
    intro n hn heq
    have hvalue := congrArg UInt8.toNat heq
    rw [UInt8.toNat_ofNat'] at hvalue
    exact hn hvalue.symm
  have hcode : 0x20 ≤ c.val.toNat := h
  unfold String.utf8EncodeChar
  generalize c.val.toNat = v at hcode ⊢
  dsimp only
  split_ifs with hone htwo hthree <;> simp only [List.mem_cons, List.not_mem_nil, or_false, not_or]
  · exact hbyte _ (by omega)
  · exact ⟨hbyte _ (by omega), hbyte _ (by omega)⟩
  · exact ⟨hbyte _ (by omega), hbyte _ (by omega), hbyte _ (by omega)⟩
  · exact ⟨hbyte _ (by omega), hbyte _ (by omega), hbyte _ (by omega), hbyte _ (by omega)⟩

/-- A text without control characters has no line feed among its bytes. -/
theorem lineFeed_not_mem_bytes {s : String} (h : ∀ c ∈ s.toList, 0x20 ≤ c.toNat) : 10 ∉ bytes s := by
  rw [bytes_eq_flatMap]
  intro hmem
  obtain ⟨c, hc, hbyte⟩ := List.mem_flatMap.mp hmem
  exact lineFeed_not_mem_utf8EncodeChar (h c hc) hbyte

/-- The characters of joined texts are those of the texts. -/
theorem toList_join (texts : List String) : (join "" texts).toList = texts.flatMap String.toList := by
  induction texts with
  | nil => rfl
  | cons a texts ih =>
    cases texts with
    | nil => simp [join]
    | cons b texts =>
      rw [List.flatMap_cons, ← ih]
      simp [join]

end Text

/-! ### Lines -/

/-- Lines that each end with a separator are cut at it, with nothing after the last one. -/
theorem splitOn_flatMap {α : Type} [BEq α] [LawfulBEq α] {a : α} {lines : List (List α)} (h : ∀ line ∈ lines, a ∉ line) :
    (lines.flatMap (fun line => line ++ [a])).splitOn a = lines ++ [[]] := by
  induction lines with
  | nil => exact List.splitOn_nil a
  | cons line lines ih =>
    rw [List.flatMap_cons, List.append_assoc, List.singleton_append,
      List.splitOn_append_cons_self_of_not_mem (h line List.mem_cons_self),
      ih (fun l hl => h l (List.mem_cons_of_mem _ hl)), List.cons_append]

namespace EmissionEvent

theorem sound_toJson (e : EmissionEvent) : e.toJson.Sound := by
  cases e with
  | target key order fingerprint => simp [toJson]
  | descriptor d =>
    refine .obj (fun m hm => ?_)
    rcases List.mem_cons.mp hm with rfl | hm
    · exact .str _
    · exact Descriptor.sound_of_mem_members hm

/-- The line of a record. -/
def line (e : EmissionEvent) : List UInt8 := Text.bytes e.toJson.compact

/-- The line of a record has no line feed within it. -/
theorem lineFeed_not_mem_line (e : EmissionEvent) : 10 ∉ e.line := by
  refine Text.lineFeed_not_mem_bytes (fun c hc => ?_)
  rw [Json.compact, String.toList_ofList] at hc
  exact e.sound_toJson.not_control c hc

end EmissionEvent

/-- The bytes of a stream are its lines, cut at the line feeds. -/
theorem splitOn_lines (x : ExecutorInput) :
    (Text.bytes x.lines).splitOn 10 = x.events.map EmissionEvent.line ++ [[]] := by
  have hbytes : Text.bytes x.lines = (x.events.map EmissionEvent.line).flatMap (fun line => line ++ [10]) := by
    rw [ExecutorInput.lines, Text.bytes_eq_flatMap, Text.toList_join, List.flatMap_map, List.flatMap_map, List.flatMap_assoc]
    refine List.flatMap_congr (fun e _ => ?_)
    rw [String.toList_append, List.flatMap_append, ← Text.bytes_eq_flatMap]
    rfl
  rw [hbytes, splitOn_flatMap]
  intro line hline
  obtain ⟨e, -, rfl⟩ := List.mem_map.mp hline
  exact e.lineFeed_not_mem_line

/-! ### Records -/

namespace EmissionEvent

/-- The record of a JSON value, as a consumer of the stream takes it: the tag, which must not be repeated, says what the
other members are. -/
def ofJson? (j : Json) : Option EmissionEvent := do
  match ← Json.fields? [("event", .required)] j with
  | [some (.str "target")] =>
    match ← Json.fields? [("key", .required), ("order", .required), ("fingerprint", .required)] j with
    | [some key, some order, some fingerprint] =>
      return .target (← key.str?) (← Json.strings? order) (← fingerprint.str?)
    | _ => none
  | [some (.str "descriptor")] => return .descriptor (← Descriptor.ofJson? j)
  | _ => none

/-- The JSON value of a line. -/
def jsonOfLine? (line : List UInt8) : Option Json := (String.fromUTF8? line.toByteArray).bind Json.ofText?

/-- The record of a line. -/
def ofLine? (line : List UInt8) : Option EmissionEvent := (jsonOfLine? line).bind ofJson?

/-- No field of a descriptor can be taken for the tag. -/
theorem tag_not_field (d : Descriptor) : d.members.filter (fun m => m.1 == "event") = [] := by
  rw [d.members_eq]
  refine Json.filter_fieldMembers_of_not_mem ?_
  have hnames : Json.namesOf (Descriptor.fieldNames.zip d.values) = Descriptor.fieldNames.map Prod.fst := rfl
  rw [hnames]
  decide

/-- The tag of a record is read, whatever its other members. -/
theorem fields?_tag {tag : Json} {members : List (String × Json)} (h : members.filter (fun m => m.1 == "event") = []) :
    Json.fields? [("event", .required)] (.obj (("event", tag) :: members)) = some [some tag] := by
  have hsingle : Json.isRepeated (("event", tag) :: members) "event" = false := by
    rw [Json.isRepeated, List.filter_cons_of_pos rfl, h]
    rfl
  rw [Json.fields?, List.any_cons, hsingle, List.any_nil]
  rfl

/-- A record is read back from its JSON value. -/
theorem ofJson?_toJson (e : EmissionEvent) : ofJson? e.toJson = some e := by
  cases e with
  | target key order fingerprint =>
    have htag : Json.fields? [("event", .required)] (toJson (.target key order fingerprint)) =
        some [some (.str "target")] := fields?_tag rfl
    have hfields : Json.fields? [("key", .required), ("order", .required), ("fingerprint", .required)]
        (toJson (.target key order fingerprint)) =
          some [some (.str key), some (Json.ofStrings order), some (.str fingerprint)] := rfl
    unfold ofJson?
    rw [htag]
    simp [hfields, Json.str?, Json.strings?_ofStrings]
  | descriptor d =>
    have htag : Json.fields? [("event", .required)] (toJson (.descriptor d)) = some [some (.str "descriptor")] :=
      fields?_tag (tag_not_field d)
    have hread : Descriptor.ofJson? (toJson (.descriptor d)) = some d :=
      d.ofJson?_members [("event", .str "descriptor")] (by decide)
    unfold ofJson?
    rw [htag]
    simp [hread]

/-- A line is read as the record it was written for. -/
theorem jsonOfLine?_line (e : EmissionEvent) : jsonOfLine? e.line = some e.toJson := by
  rw [jsonOfLine?, line, Text.fromUTF8?_bytes, Option.bind_some, Json.ofText?_compact e.sound_toJson]

/-- A record is read from its line. -/
theorem ofLine?_line (e : EmissionEvent) : ofLine? e.line = some e := by
  rw [ofLine?, jsonOfLine?_line, Option.bind_some, ofJson?_toJson]

/-- Records are read from their lines. -/
theorem mapM_ofLine?_line (events : List EmissionEvent) : (events.map line).mapM ofLine? = some events :=
  mapM_map_eq_self (fun e _ => e.ofLine?_line)

end EmissionEvent

/-! ### Targets -/

/-- What a stream says about a target. -/
structure StreamedTarget where
  key : String
  order : List String
  fingerprint : String
  descriptors : List Descriptor

/-- What a stream says about the target of a plan. -/
def TargetPlan.streamed (p : TargetPlan) : StreamedTarget := ⟨p.key, p.order, p.fingerprint, p.descriptors⟩

/-- The targets of some records, each with the descriptors up to the next target. The descriptors before the first target
come apart. -/
def EmissionEvent.streamedTargets : List EmissionEvent → List Descriptor × List StreamedTarget
  | [] => ([], [])
  | .descriptor d :: rest => (d :: (streamedTargets rest).1, (streamedTargets rest).2)
  | .target key order fingerprint :: rest =>
    ([], ⟨key, order, fingerprint, (streamedTargets rest).1⟩ :: (streamedTargets rest).2)

/-- The descriptors in front of some records belong to the target that is open there. -/
theorem EmissionEvent.streamedTargets_append (descriptors : List Descriptor) (rest : List EmissionEvent) :
    streamedTargets (descriptors.map .descriptor ++ rest) =
      (descriptors ++ (streamedTargets rest).1, (streamedTargets rest).2) := by
  induction descriptors with
  | nil => rfl
  | cons d descriptors ih => rw [List.map_cons, List.cons_append, streamedTargets, ih, List.cons_append]

/-- The records of an input say about its targets what there is to say, and nothing comes before the first one. -/
theorem streamedTargets_events (targets : List TargetPlan) :
    EmissionEvent.streamedTargets (targets.flatMap TargetPlan.events) = ([], targets.map TargetPlan.streamed) := by
  induction targets with
  | nil => rfl
  | cons p targets ih =>
    rw [List.flatMap_cons, TargetPlan.events, List.cons_append, EmissionEvent.streamedTargets,
      EmissionEvent.streamedTargets_append, ih, List.append_nil, List.map_cons]
    rfl

/-- Recognizing the targets of an input changes nothing that a stream says about them. -/
theorem ExecutorInput.streamed_recognized (x : ExecutorInput) :
    x.recognized.targets.map TargetPlan.streamed = x.targets.map TargetPlan.streamed := by
  rw [recognized, List.map_map]
  rfl

/-- A stream is framed and says the same as the document. Cut at the line feeds, its bytes are lines with nothing after the
last one, and there is one line for each record: for every target in order one that is tagged as a target, with the key, the
order and the fingerprint, and after it one for each descriptor in order, tagged as one. Read as records, the lines give back
the keys, orders, fingerprints and descriptors of the targets, which are those that are read from the document. -/
theorem stream_read_back (x : ExecutorInput) :
    ∃ lines : List (List UInt8), (Text.bytes x.lines).splitOn 10 = lines ++ [[]] ∧
      lines.mapM EmissionEvent.jsonOfLine? = some (x.events.map EmissionEvent.toJson) ∧
      lines.mapM EmissionEvent.ofLine? =
        some (x.targets.flatMap fun p => .target p.key p.order p.fingerprint :: p.descriptors.map .descriptor) ∧
      (lines.mapM EmissionEvent.ofLine?).map EmissionEvent.streamedTargets = some ([], x.targets.map TargetPlan.streamed) ∧
      ∃ y, ExecutorInput.ofText x.document = .ok y ∧
        y.targets.map TargetPlan.streamed = x.targets.map TargetPlan.streamed := by
  have hjson : (x.events.map EmissionEvent.line).mapM EmissionEvent.jsonOfLine? = some (x.events.map EmissionEvent.toJson) :=
    mapM_map_eq_some (fun e _ => e.jsonOfLine?_line)
  have hread := EmissionEvent.mapM_ofLine?_line x.events
  refine ⟨x.events.map EmissionEvent.line, splitOn_lines x, hjson, hread, ?_, x.recognized, x.ofText_document, ?_⟩
  · rw [hread, Option.map_some, ExecutorInput.events, streamedTargets_events]
  · exact x.streamed_recognized

/-! ### Consumers -/

namespace StreamedTarget

/-- The targets that a consumer of a document gets from its text. -/
def ofDocument? (text : String) : Option (List StreamedTarget) :=
  (ExecutorInput.ofText text).toOption.map fun x => x.targets.map TargetPlan.streamed

/-- The targets that a consumer of a stream gets from its text. Every line has to be a record and to end with a line feed, and
the first record has to be that of a target. -/
def ofLines? (text : String) : Option (List StreamedTarget) :=
  match ((Text.bytes text).splitOn 10).reverse with
  | [] :: lines =>
    (lines.reverse.mapM EmissionEvent.ofLine?).bind fun events =>
      match EmissionEvent.streamedTargets events with
      | ([], targets) => some targets
      | _ => none
  | _ => none

/-- A consumer gets the targets of an input from its document and a line feed. -/
theorem ofDocument?_document_lineFeed (x : ExecutorInput) :
    ofDocument? (x.document ++ "\n") = some (x.targets.map TargetPlan.streamed) := by
  rw [ofDocument?, x.ofText_document_lineFeed]
  exact congrArg some x.streamed_recognized

/-- A consumer gets the targets of an input from its lines. -/
theorem ofLines?_lines (x : ExecutorInput) : ofLines? x.lines = some (x.targets.map TargetPlan.streamed) := by
  have hlines : ((Text.bytes x.lines).splitOn 10).reverse = [] :: (x.events.map EmissionEvent.line).reverse := by
    rw [splitOn_lines, List.reverse_append]
    rfl
  unfold ofLines?
  rw [hlines]
  dsimp only
  rw [List.reverse_reverse, EmissionEvent.mapM_ofLine?_line, Option.bind_some, ExecutorInput.events, streamedTargets_events]

end StreamedTarget

end BuildPlan
