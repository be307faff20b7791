import ThemeCss.Artifacts
import ThemeCss.Digest.Blake3
import ThemeCss.Number.Decimal

/-! # Reports

What a build has made, in numbers: classes, sizes, and a fingerprint of the readable artifact by
which two builds can be compared.
-/

namespace ThemeCss

structure Report where
  classCount : Nat
  readableBytes : Nat
  minifiedBytes : Nat
  fingerprint : String
deriving DecidableEq

/-- The first twelve digits of the digest of a text. -/
def fingerprint (text : String) : String :=
  String.ofList ((Blake3.hexDigest text.toUTF8.toList).take 12)

namespace Report

def ofArtifacts (artifacts : Artifacts) : Report where
  classCount := artifacts.classCount
  readableBytes := artifacts.readable.utf8ByteSize
  minifiedBytes := artifacts.minified.utf8ByteSize
  fingerprint := ThemeCss.fingerprint artifacts.readable

/-- The size of the minified artifact in per cent of the readable one. -/
def ratio (report : Report) : Binary64 :=
  if report.readableBytes = 0 then .zero
  else .ofNat report.minifiedBytes / .ofNat report.readableBytes * .ofNat 100

/-- Text filled up with spaces on the right. -/
def leftAligned (width : Nat) (text : String) : String :=
  text ++ String.ofList (List.replicate (width - text.length) ' ')

/-- Text filled up with spaces on the left. -/
def rightAligned (width : Nat) (text : String) : String :=
  String.ofList (List.replicate (width - text.length) ' ') ++ text

/-- A row of the table: 18 characters for the name and 14 for the value, or more. -/
def row (name value : String) : String :=
  "  " ++ leftAligned 18 name ++ " " ++ rightAligned 14 value ++ "\n"

/-- A row of hyphens as wide as the columns. -/
def ruler : String :=
  row (String.ofList (List.replicate 18 '-')) (String.ofList (List.replicate 14 '-'))

/-- The report as a table. -/
def table (report : Report) : String :=
  row "Metric" "Value" ++ ruler ++
    row "Class selectors" (toString report.classCount) ++
    row "Readable size" s!"{report.readableBytes} B" ++
    row "Minified size" (s!"{report.minifiedBytes} B (" ++ report.ratio.fixed 1 ++ "%)") ++
    row "Fingerprint" report.fingerprint

end Report

end ThemeCss
