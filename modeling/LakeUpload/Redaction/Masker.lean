import LakeUpload.Redaction.Path
import LakeUpload.Redaction.Signature

/-!
# Masked text

What a log may show of a URL and of a message. A message loses its signatures first and its paths
from what is left.
-/

namespace LakeUpload

namespace Redaction

/-- A URL without the values of its signatures. -/
def hideUrl (config : Config) (url : Bytes) : Bytes :=
  if config.signatures then Signature.redact url else url

def hideMessage (config : Config) (message : Bytes) : Bytes :=
  let unsigned := hideUrl config message
  if config.paths then hidePaths config unsigned else unsigned

theorem hideUrl_none (url : Bytes) : hideUrl .none url = url := rfl

theorem hidePath_none (path : Bytes) : hidePath .none path = path := rfl

theorem hideMessage_none (message : Bytes) : hideMessage .none message = message := rfl

end Redaction

end LakeUpload
