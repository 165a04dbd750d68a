/-! The help texts of the command line. -/
namespace Compendium.Command

def programName : String := "vulnkb"

def summaries : List (String × String) :=
  [("scan", "Sync knowledge base files into the store"), ("rebuild", "Scan, then rebuild the whole index"),
    ("bootstrap", "Scan and index new or changed documents"), ("status", "Show index coverage"),
    ("categories", "List risk types"), ("search", "Search the knowledge base")]

def names : List String := summaries.map (·.1)

def choiceText : String := "\x7b" ++ ",".intercalate names ++ "\x7d"

def padded (width : Nat) (s : String) : String := s ++ String.ofList (List.replicate (width - s.length) ' ')

def help : String :=
  "\n".intercalate
    (["usage: " ++ programName ++ " [-h] " ++ choiceText ++ " ...", "", "Security knowledge base CLI", "",
      "positional arguments:", "  " ++ choiceText, padded 24 "" ++ "Available commands"] ++
    summaries.map (fun s => "    " ++ padded 20 s.1 ++ s.2) ++
    ["", "options:", "  -h, --help            show this help message and exit", ""])

def searchHelp : String :=
  "\n".intercalate
    ["usage: " ++ programName ++ " search [-h] [--risk-type RISK_TYPE] [--top-k TOP_K]",
      "                     [--threshold THRESHOLD] [--summary]", "                     query", "",
      "positional arguments:", "  query                 Query text", "", "options:",
      "  -h, --help            show this help message and exit", "  --risk-type RISK_TYPE",
      "                        Restrict to one risk type", "  --top-k TOP_K         Max results",
      "  --threshold THRESHOLD", "                        Similarity threshold override",
      "  --summary             Print one line per result", ""]

def helpOn (name : String) : String :=
  if name = "search" then searchHelp
  else
    "\n".intercalate
      ["usage: " ++ programName ++ " " ++ name ++ " [-h]", "", "options:",
        "  -h, --help  show this help message and exit", ""]

end Compendium.Command
