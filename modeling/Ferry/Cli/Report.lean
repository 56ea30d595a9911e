import Ferry.Cleanup
import Ferry.Config.Basic
import Ferry.Json.Text
import Ferry.Promotion
import Ferry.Resource.Encode
import Ferry.Toml.Writer

/-!
# What commands print

Every report has a form for readers, mostly columns, and a JSON form with fields
in order of their names.
-/
namespace Ferry.Cli

def printJson (v : Json) : String := v.pretty ++ "\n"

/-- Cells in columns of given widths, with a last cell of any width. -/
def row (cells : List (Nat × String)) (last : String) : String :=
  "".intercalate (cells.map fun (width, cell) => padRight width cell ++ " ") ++ last ++ "\n"

def verdict (allowed : Bool) : String := if allowed then "allowed" else "denied"

def checkReport (format : OutputFormat) (d : Deployable) (c : Channel) : String :=
  let resident := Policy.resides d c
  let promotable := Policy.admits d c
  match format with
  | .table =>
    row [(12, "deployable")] d.identity ++ row [(12, "channel")] c.identity ++
      row [(12, "in-channel")] (verdict resident) ++ row [(12, "to-channel")] (verdict promotable)
  | .json => printJson <| .obj
    [("channel", .str c.identity), ("deployable", .str d.identity),
      ("in_channel", .bool resident), ("to_channel", .bool promotable)]

/-- A key, or null. -/
def keyOrNull : Option ObjectKey → Json
  | some key => key.encode
  | none => .null

def familyReport (format : OutputFormat) (d : Deployable) (family : Family) : String :=
  let parent := family.parent.map Deployable.key
  let children := family.children.entries
  match format with
  | .table =>
    "Parent: " ++ (parent.map ObjectKey.text).getD "-" ++ "\n" ++
      if children.isEmpty then "No projections\n"
      else
        row [(30, "CHANNEL")] "PROJECTION" ++
          "".intercalate (children.map fun (channel, child) => row [(30, channel)] child.identity)
  | .json => printJson <| .obj
    [("children", .obj (children.map fun (channel, child) => (channel, child.key.encode))),
      ("deployable", .str d.identity), ("parent", keyOrNull parent)]

/-- The projection itself, as TOML or as JSON. -/
def projectionReport (format : OutputFormat) (projection : Deployable) :
    Except Toml.WriteError String :=
  match format with
  | .table => Toml.render projection.fields
  | .json => .ok (printJson projection.encode)

/-- The name of an outcome, with the projection it is about. -/
def outcomeParts : Outcome → String × Option ObjectKey
  | .created key => ("created", some key)
  | .alreadyPresent key => ("present", some key)
  | .resident => ("resident", none)
  | .denied => ("denied", none)

def promotionReport (format : OutputFormat) (report : PromotionReport) : String :=
  match format with
  | .table =>
    if report.outcomes.isEmpty then "No channels to consider\n"
    else
      row [(30, "CHANNEL"), (10, "STATUS")] "PROJECTION" ++
        "".intercalate (report.outcomes.map fun (channel, outcome) =>
          let (status, projection) := outcomeParts outcome
          row [(30, channel.text), (10, status)] ((projection.map ObjectKey.text).getD "-"))
  | .json => printJson <| .arr (report.outcomes.map fun (channel, outcome) =>
    let (status, projection) := outcomeParts outcome
    .obj [("channel", channel.encode), ("projection", keyOrNull projection),
      ("status", .str status)])

def cleanupReport (format : OutputFormat) (channel : ObjectKey) (report : CleanupReport) :
    String :=
  match format with
  | .table =>
    if report.deleted.isEmpty then "• Nothing to clean up for " ++ channel.text ++ "\n"
    else "".intercalate (report.deleted.map fun key => "✓ Deleted " ++ key.text ++ "\n")
  | .json => printJson <| .obj
    [("channel", channel.encode), ("deleted", .arr (report.deleted.map ObjectKey.encode))]

end Ferry.Cli
