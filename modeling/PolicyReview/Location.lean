import PolicyReview.Url

/-! Places that hold policy files. A text without `://` is a local path as it stands; a URL is
one of a file, or of a bucket in an object store and a start that keys there have. -/

namespace PolicyReview

inductive LocationFault where
  | unsupportedScheme (scheme : String)
  | badUrl (fault : Url.Fault)
  | missingBucket (raw : String)
  /-- A file's URL that has a host. -/
  | unmappableFile
  deriving DecidableEq, Repr

def LocationFault.message : LocationFault → String
  | unsupportedScheme scheme => "unsupported uri scheme: " ++ scheme
  | badUrl fault => "invalid uri: " ++ fault.message
  | missingBucket raw => "invalid uri: " ++ raw ++ ": missing bucket"
  | unmappableFile => "invalid uri: failed to map file url to path"

inductive Location where
  | disk (path : Text.Bytes)
  | objectStore (bucket keyStart : String)
  deriving DecidableEq, Repr

namespace Location

def text : Location → String
  | .disk path => Text.shown path
  | .objectStore bucket keyStart => "s3://" ++ bucket ++ "/" ++ keyStart

def marksUrl : List Char → Bool
  | [] => false
  | c :: rest => [':', '/', '/'].isPrefixOf (c :: rest) || marksUrl rest

def ofUrl (raw : String) (url : Url) : Except LocationFault Location :=
  if url.scheme = "s3" then
    match url.host.text? with
    | some bucket =>
      .ok (.objectStore bucket (String.ofList (url.path.toList.dropWhile (· = '/'))))
    | none => .error (.missingBucket raw)
  else if url.scheme = "file" then
    match url.filePath? with
    | some path => .ok (.disk path)
    | none => .error .unmappableFile
  else .error (.unsupportedScheme url.scheme)

def parse (raw : String) : Except LocationFault Location :=
  if marksUrl raw.toList then
    match Url.read raw with
    | .ok url => ofUrl raw url
    | .error fault => .error (.badUrl fault)
  else .ok (.disk (Text.bytes raw))

end Location

end PolicyReview
