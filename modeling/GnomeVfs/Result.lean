import Mathlib.Logic.Basic

namespace GnomeVfs

/-- `GnomeVFSResult`. -/
inductive VfsResult where
  | ok | notFound | generic | internal | badParameters | notSupported | io | corruptedData
  | wrongFormat | badFile | tooBig | noSpace | readOnly | invalidUri | notOpen | invalidOpenMode
  | accessDenied | tooManyOpenFiles | eof | notADirectory | inProgress | interrupted
  | fileExists | loop | notPermitted | isDirectory | noMemory | hostNotFound | invalidHostName
  | hostHasNoAddress | loginFailed | cancelled | directoryBusy | directoryNotEmpty
  | tooManyLinks | readOnlyFileSystem | notSameFileSystem | nameTooLong | serviceNotAvailable
  | serviceObsolete | protocolError | noMasterBrowser | noDefault | noHandler | parse | launch
  | timeout | nameserver | locked | deprecatedFunction | invalidFilename | notASymbolicLink
  deriving DecidableEq, Repr

end GnomeVfs
