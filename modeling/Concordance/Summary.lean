import Concordance.Watch

/-! One line about a catalog, a watch or a document, for whoever looks for a fault. -/
namespace Concordance

/-- A name and fields between curly brackets. -/
def summarize (name : String) (fields : List (String × String)) : String :=
  let texts := fields.map fun field => field.1 ++ ": " ++ field.2
  name ++ " \x7b " ++ ", ".intercalate texts ++ " \x7d"

/-- A byte that is no text, in two hexadecimal digits. -/
def escapeByte (byte : UInt8) : List Char :=
  '\\' :: 'x' :: (Text.hexDigits byte.toNat).map Char.toUpper

/-- The path between double quotes. -/
def Path.quote (path : Path) : String :=
  let inside := (Utf8.chunks path.bytes).flatMap fun (text, fault) =>
    text.flatMap Text.escape ++ fault.flatMap escapeByte
  String.ofList ('"' :: inside ++ ['"'])

def Catalog.summary (catalog : Catalog) : String :=
  summarize "Store" [
    ("dir", catalog.directory.quote),
    ("terms", toString catalog.terms.size),
    ("documents", toString catalog.documents.size),
    ("next_doc_id", toString catalog.nextId.toNat),
    ("generation", toString catalog.generation.toNat)]

def WatchSettings.summary (settings : WatchSettings) : String :=
  summarize "DaemonConfig" [
    ("interval_secs", toString settings.intervalSeconds),
    ("max_files_per_path", toString settings.maxFilesPerPath)]

def Watch.summary (watch : Watch) (settings : WatchSettings) : String :=
  summarize "FileSystemDaemon" [
    ("config", settings.summary),
    ("paths", toString watch.roots.size),
    ("skipped_ticks", toString watch.skippedTicks)]

def DocumentKind.title : DocumentKind → String
  | prose => "Normal"
  | csv => "Csv"
  | json => "Json"
  | blob => "Blob"
  | unknown => "Unknown"

def Document.summary (document : Document) : String :=
  summarize "Document" [
    ("id", s!"DocId({document.id.toNat})"),
    ("path", document.path.quote),
    ("type", document.facts.kind.title),
    ("word_count", toString document.facts.wordCount.toNat),
    ("kvs", toString document.metadata.size)]

end Concordance
