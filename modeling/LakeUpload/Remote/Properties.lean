import LakeUpload.Transfer.Info

/-!
# Properties of remote paths
-/

namespace LakeUpload

/-- The content headers that are stored with a path. -/
structure Headers where
  contentType : Bytes := []
  contentEncoding : Bytes := []
  contentLanguage : Bytes := []
  contentDisposition : Bytes := []
  cacheControl : Bytes := []
  /-- The digest of the whole content, empty if it is not known. -/
  contentMd5 : Bytes := []
  deriving DecidableEq, Repr

structure Properties where
  /-- Zero for a folder. -/
  length : UInt64 := 0
  headers : Headers := {}
  etag : Bytes := []
  kind : Entity := .file
  deriving DecidableEq, Repr

end LakeUpload
