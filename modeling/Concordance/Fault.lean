import Concordance.Scalar
import Concordance.Text.Quoted
import Concordance.Text.Utf8

namespace Concordance

/-- Why a written catalog cannot be read. -/
inductive Corruption where
  | badKey (name : String)
  | notText (fault : Utf8.Fault)
  | badMoment (text : String)
  | unknownValueTag (tag : UInt8) (isArray : Bool)
  | unevenPostings (documents offsets : Nat)
  | unsortedPostings
  | unknownDocumentTag (tag : UInt8)
  | misfiledDocument (record filed : UInt64)
  | trailingBytes (count : Nat)
  | idBeyondCounter
  | other (reason : String)
deriving DecidableEq

namespace Corruption

def reason : Corruption → String
  | badKey name => s!"bad key {Text.quote name}"
  | notText fault => s!"string is not UTF-8: {fault.message}"
  | badMoment text => s!"bad datetime {Text.quote text}"
  | unknownValueTag tag isArray => s!"unknown value tag {tag.toNat} (array: {isArray})"
  | unevenPostings documents offsets =>
      s!"posting list has {documents} entries but statistics list has {offsets}"
  | unsortedPostings => "posting list is not strictly ascending"
  | unknownDocumentTag tag => s!"unknown document type tag {tag.toNat}"
  | misfiledDocument record filed =>
      s!"document record {record.toNat} is filed under id {filed.toNat}"
  | trailingBytes count => s!"{count} trailing bytes after document table"
  | idBeyondCounter => "document id beyond id counter"
  | other reason => reason

end Corruption

/-- Why a value cannot be built. -/
inductive ValueCause where
  | mixedArray (first : ScalarKind)
  | unsupportedArray (kind : ScalarKind)
  | nestedArray
  | unexpectedObject
  | other (reason : String)
deriving DecidableEq

namespace ValueCause

def reason : ValueCause → String
  | mixedArray first => s!"array elements must all be {first.name} scalars"
  | unsupportedArray kind => s!"{kind.name} arrays are not supported"
  | nestedArray => "nested arrays are not supported"
  | unexpectedObject => "unexpected object in array"
  | other reason => reason

end ValueCause

/-- Why a directory cannot hold a catalog. -/
inductive PathCause where
  | notADirectory
  | missing
deriving DecidableEq

def PathCause.reason : PathCause → String
  | notADirectory => "not a directory"
  | missing => "does not exist"

/-- What the file system refused. -/
inductive DiskFault where
  | notFound
  | notADirectory
  | isADirectory
  | notEmpty
  | occupied
  | busy
  | tooManyLinks
  | nameTooLong
  | badName
  | badOffset
  | notText
deriving DecidableEq

inductive Fault where
  | databasePath (path : String) (cause : PathCause)
  | corrupted (cause : Corruption)
  | outOfRange (needed remaining : Nat)
  | extraction (path reason : String)
  | json
  | badQuery (position : Nat) (expected : String)
  | badKey (name : String)
  | badValue (cause : ValueCause)
  | badMoment (text : String)
  | configuration
  | disk (fault : DiskFault)
  | usageLog
  | internal (reason : String)
deriving DecidableEq

namespace Fault

/-- The catalog on disk cannot be used and has to be built again. -/
def requiresRebuild : Fault → Bool
  | corrupted _ | outOfRange _ _ | databasePath _ _ => true
  | _ => false

/-- Another try may succeed. -/
def isRecoverable : Fault → Bool
  | disk _ => true
  | _ => false

end Fault

namespace DiskFault

def text : DiskFault → String
  | notFound => "No such file or directory (os error 2)"
  | notADirectory => "Not a directory (os error 20)"
  | isADirectory => "Is a directory (os error 21)"
  | notEmpty => "Directory not empty (os error 39)"
  | occupied => "File exists (os error 17)"
  | busy => "Device or resource busy (os error 16)"
  | tooManyLinks => "Too many levels of symbolic links (os error 40)"
  | nameTooLong => "File name too long (os error 36)"
  | badName => "file name contained an unexpected NUL byte"
  | badOffset => "Invalid argument (os error 22)"
  | notText => "stream did not contain valid UTF-8"

end DiskFault

namespace Fault

def message : Fault → String
  | databasePath path cause => s!"invalid database path {path}: {cause.reason}"
  | corrupted cause => s!"database metadata is corrupted: {cause.reason}"
  | outOfRange needed remaining =>
      s!"read out of range: needed {needed} bytes, {remaining} remaining"
  | extraction path reason => s!"extraction failed for {path}: {reason}"
  | json => "JSON error"
  | badQuery position expected => s!"syntax error at byte {position}: expected {expected}"
  | badKey name => s!"invalid key: {Text.quote name}"
  | badValue cause => s!"invalid value: {cause.reason}"
  | badMoment text => s!"invalid datetime: {Text.quote text}"
  | configuration => "configuration error"
  | disk fault => s!"I/O error: {fault.text}"
  | usageLog => "serialization error"
  | internal reason => s!"internal error: {reason}"

end Fault
end Concordance
