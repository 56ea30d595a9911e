import Ferry.Cli.Report
import Ferry.Proofs.Json

/-!
# What reports say

The texts of reports as their readers have them: lines with columns of fixed width, or a JSON text
that is read as an object with certain members. Nothing here is told by the way in which the texts
are put together.
-/
namespace Ferry.Cli

/-- The spaces that fill a column up after a text. -/
def blanks (width : Nat) (text : String) : String :=
  String.ofList (List.replicate (width - text.length) ' ')

/-- A report that tells one thing of one channel, with the projection that it is about. -/
inductive Reports (channel : ObjectKey) (status : String) (projection : Option ObjectKey) :
    OutputFormat → String → Prop
  | table {text} : text = "CHANNEL                        STATUS     PROJECTION\n" ++
      channel.text ++ blanks 30 channel.text ++ " " ++ status ++ blanks 10 status ++ " " ++
        projection.elim "-" ObjectKey.text ++ "\n" → Reports channel status projection .table text
  | json {text} : Json.read? text = some (.arr [.obj
      [("channel", .str channel.text), ("projection", projection.elim .null (.str ·.text)),
        ("status", .str status)]]) → Reports channel status projection .json text

/-- What a check shows of a deployable that is allowed in the channel. -/
inductive Allows (d : Deployable) (c : Channel) : OutputFormat → String → Prop
  | table {text} : text = "deployable   " ++ d.identity ++ "\n" ++ "channel      " ++ c.identity ++
      "\n" ++ "in-channel   allowed\n" ++ "to-channel   " ++
        (if Policy.admits d c then "allowed" else "denied") ++ "\n" → Allows d c .table text
  | json {text} : Json.read? text = some (.obj
      [("channel", .str c.identity), ("deployable", .str d.identity), ("in_channel", .bool true),
        ("to_channel", .bool (Policy.admits d c))]) → Allows d c .json text

theorem read?_printJson (v : Json) : Json.read? (printJson v) = some v := v.read?_pretty

theorem row_singleton (width : Nat) (cell last : String) :
    row [(width, cell)] last = padRight width cell ++ " " ++ last ++ "\n" := by
  simp [row]

theorem row_pair (width width' : Nat) (cell cell' last : String) :
    row [(width, cell), (width', cell')] last =
      padRight width cell ++ " " ++ (padRight width' cell' ++ " ") ++ last ++ "\n" := by
  simp [row]

theorem reports_promotionReport (format : OutputFormat) (channel : ObjectKey) (outcome : Outcome) :
    Reports channel (outcomeParts outcome).1 (outcomeParts outcome).2 format
      (promotionReport format ⟨[(channel, outcome)]⟩) := by
  cases format with
  | table =>
    have hheader : row [(30, "CHANNEL"), (10, "STATUS")] "PROJECTION" =
        "CHANNEL                        STATUS     PROJECTION\n" := by decide +kernel
    have hcell (projection : Option ObjectKey) :
        (projection.map ObjectKey.text).getD "-" = projection.elim "-" ObjectKey.text := by
      cases projection <;> rfl
    apply Reports.table
    simp [promotionReport, hheader, row_pair, hcell, padRight, blanks, String.append_assoc]
  | json =>
    apply Reports.json
    rw [promotionReport, read?_printJson]
    cases outcome <;> rfl

theorem status_of_not_created {outcome : Outcome} (h : ∀ key, outcome ≠ .created key) :
    (outcomeParts outcome).1 ∈ ["present", "resident", "denied"] := by
  cases outcome with
  | created key => exact absurd rfl (h key)
  | alreadyPresent | resident | denied => simp [outcomeParts]

theorem allows_checkReport {d : Deployable} {c : Channel} (h : Policy.resides d c = true)
    (format : OutputFormat) : Allows d c format (checkReport format d c) := by
  cases format with
  | table =>
    have hdeployable : padRight 12 "deployable" ++ " " = "deployable   " := by decide +kernel
    have hchannel : padRight 12 "channel" ++ " " = "channel      " := by decide +kernel
    have hresident : row [(12, "in-channel")] "allowed" = "in-channel   allowed\n" := by
      decide +kernel
    have hpromotable : padRight 12 "to-channel" ++ " " = "to-channel   " := by decide +kernel
    apply Allows.table
    rw [checkReport, h, verdict, if_pos rfl, hresident]
    simp only [row_singleton, hdeployable, hchannel, hpromotable, verdict, String.append_assoc]
  | json =>
    apply Allows.json
    rw [checkReport, read?_printJson, h]

end Ferry.Cli
