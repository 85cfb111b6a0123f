import EECS339.Formatting

/-!
# The mount protocol

What `btree.h` promises of `Attach` on an existing index and of `Detach`, and when
the code keeps these promises.
-/
namespace BTreeLab
open Words BTreeNode BufferCache

namespace BufferCache

end BufferCache

namespace BTreeIndex

variable {u : Memory} {t : BTreeIndex}

end BTreeIndex
end BTreeLab
