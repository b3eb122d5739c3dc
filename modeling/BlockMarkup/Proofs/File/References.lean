import BlockMarkup.Proofs.File.Acceptance

/-!
# The references of a file

Every reference of a block points into the content range of that block, in
blocks of code and in all others. So its name is what its range covers, and the
range lies in the content of the block.
-/

namespace BlockMarkup

/-- The content of a block has its range in the document. -/
theorem Block.Reads.hasRange_contentRange {reading : Reading} {document : Document}
    {header : BlockHeader} {block : Block} (reads : Block.Reads reading document header block) :
    document.HasRange block.contentRange :=
  Document.hasRange_of_contentRange reads.contentRange
    (Block.readContent_closingLine reads.content).2

/-- The references of a block point into its content range. -/
theorem Block.Reads.pointsInto_of_mem_references {reading : Reading} {document : Document}
    {header : BlockHeader} {block : Block} (reads : Block.Reads reading document header block)
    (fits : document.size < wordLimit) (ordered : reading.reader.Ordered)
    (whole : reading.reader.KeepsBreaks) {reference : VariableReference}
    (member : reference ∈ block.references) : reference.PointsInto document block.contentRange := by
  have matched := Block.matchesSource_of_readContent reads.content reads.contentRange
  have referred := reads.references
  rcases Block.readReferences_eq reading document
    (reading.settings.classify header.name header.bracket) matched with byCalls | interpolated
  · rw [byCalls] at referred
    exact AccessorCall.pointsInto_of_mem_referencesIn fits reads.hasRange_contentRange.start ordered
      whole referred member
  · rw [interpolated] at referred
    exact Document.pointsInto_of_mem_interpolated fits block.contentRange referred member

namespace Document

/-- Every reference of a file has the name that its range covers, and stands in
    the content of its block. The document is one that is held in memory. Of
    what reads scripts it is asked that spans are in order and that the values
    of literals neither begin nor end inside a break; spans that the script does
    not have are left out. -/
theorem textIn_nameRange_of_references (reading : Reading) (document : Document)
    (fits : document.size < wordLimit) (ordered : reading.reader.Ordered)
    (whole : reading.reader.KeepsBreaks) :
    ∃ file, document.parse reading = .ok file ∧
      ∀ block ∈ file.blocks, ∀ reference ∈ block.references,
        document.textIn reference.nameRange = reference.name ∧
          block.contentRange.containsRange reference.nameRange = true := by
  obtain ⟨file, parsed⟩ := parse_accepted fits ordered
  refine ⟨file, parsed, ?_⟩
  intro block blockMember reference member
  obtain ⟨line, header, _, _, reads⟩ := opensBlock_of_mem parsed blockMember
  have points := reads.pointsInto_of_mem_references fits ordered whole member
  exact ⟨points.textIn_nameRange, points.containsRange_nameRange reads.hasRange_contentRange⟩

/-- A script whose literal goes on behind a break of two characters, and an
    interpolated name of a two-byte character. -/
def literalAcrossLines : Document :=
  ofText ("s \x7b\r\n bru.getVar(`a\r\nb`)\r\n\x7d\n" ++
    "m \x7b\n k: \x7b\x7bé\x7d\x7d\n\x7d").toList

/-- Reads that one script. -/
def literalAcrossLinesReading : Reading where
  settings := ⟨["s".toList], ["s".toList]⟩
  reader source :=
    if source = " bru.getVar(`a\r\nb`)".toList then
      some ⟨[⟨"bru".toList, "getVar".toList, ⟨1, 19⟩, some (.literal ⟨12, 18⟩ ⟨13, 17⟩)⟩], false⟩
    else none

/-- A literal that goes on behind a break and a two-byte name stand where they are
    reported. -/
theorem textIn_nameRange_of_references_across_lines :
    literalAcrossLines.size < wordLimit ∧ literalAcrossLinesReading.reader.Ordered ∧
      literalAcrossLinesReading.reader.KeepsBreaks ∧
      ∃ file, literalAcrossLines.parse literalAcrossLinesReading = .ok file ∧
        (file.blocks.flatMap Block.references).map VariableReference.name =
          ["a\r\nb".toList, "é".toList] ∧
        ∀ block ∈ file.blocks, ∀ reference ∈ block.references,
          literalAcrossLines.textIn reference.nameRange = reference.name ∧
            block.contentRange.containsRange reference.nameRange = true := by
  have ordered : literalAcrossLinesReading.reader.Ordered := by
    intro source outline reported call member
    simp only [literalAcrossLinesReading] at reported
    split at reported
    · cases reported
      cases List.mem_singleton.mp member
      refine ⟨by decide, ?_⟩
      rintro argument ⟨⟩
      exact ⟨by decide, by decide⟩
    · cases reported
  have whole : literalAcrossLinesReading.reader.KeepsBreaks := by
    intro source outline reported call member
    simp only [literalAcrossLinesReading] at reported
    split at reported
    · next script =>
      cases reported
      cases List.mem_singleton.mp member
      rintro literal value ⟨⟩
      rw [script]
      exact ⟨by decide, by decide⟩
    · cases reported
  have fits : literalAcrossLines.size < wordLimit := by decide
  have names : (literalAcrossLines.parse literalAcrossLinesReading).toOption.map (fun file =>
      (file.blocks.flatMap Block.references).map VariableReference.name) =
        some ["a\r\nb".toList, "é".toList] := by decide +kernel
  obtain ⟨file, parsed, points⟩ := textIn_nameRange_of_references _ _ fits ordered whole
  rw [parsed] at names
  exact ⟨fits, ordered, whole, file, parsed, Option.some.inj names, points⟩

end Document

end BlockMarkup
