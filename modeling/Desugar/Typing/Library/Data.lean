import Desugar.Typing.Library.Package

/-!
# Packages for data

To find the types of conditionals, what a package declares has to be known, but not how.
-/
namespace Desugar.Typing.Library

def errorsPackage : Package where
  path := "errors"
  name := "errors"
  declarations := "import \"internal/reflectlite\"
var ErrUnsupported error
func As(err error, target any) bool
func AsType[E error](err error) (E, bool)
func Is(err, target error) bool
func Join(errs ...error) error
func New(text string) error
func Unwrap(err error) error
func as(err error, target any, targetVal reflectlite.Value, targetType reflectlite.Type) bool
func is(err, target error, targetComparable bool) bool
type errorString struct \x7b s string \x7d
type joinError struct \x7b errs []error \x7d
var errorType reflectlite.Type
"

def reflectlitePackage : Package where
  path := "internal/reflectlite"
  name := "reflectlite"
  declarations := "type Type interface \x7b Name() string; PkgPath() string; Size() uintptr \x7d
type Value struct \x7b ptr uintptr \x7d
"

def iterPackage : Package where
  path := "iter"
  name := "iter"
  declarations := "type Seq[V any] func(yield func(V) bool)
type Seq2[K, V any] func(yield func(K, V) bool)
func Pull[V any](seq Seq[V]) (next func() (V, bool), stop func())
func Pull2[K, V any](seq Seq2[K, V]) (next func() (K, V, bool), stop func())
"

def sortPackage : Package where
  path := "sort"
  name := "sort"
  declarations := "type Interface interface \x7b
\tLen() int
\tLess(i, j int) bool
\tSwap(i, j int)
\x7d
type IntSlice []int
func (x IntSlice) Len() int
func (x IntSlice) Less(i, j int) bool
func (x IntSlice) Swap(i, j int)
func (x IntSlice) Sort()
func (p IntSlice) Search(x int) int
type Float64Slice []float64
func (x Float64Slice) Len() int
func (x Float64Slice) Less(i, j int) bool
func (x Float64Slice) Swap(i, j int)
func (x Float64Slice) Sort()
func (p Float64Slice) Search(x float64) int
type StringSlice []string
func (x StringSlice) Len() int
func (x StringSlice) Less(i, j int) bool
func (x StringSlice) Swap(i, j int)
func (x StringSlice) Sort()
func (p StringSlice) Search(x string) int
func Find(n int, cmp func(int) int) (i int, found bool)
func Float64s(x []float64)
func Float64sAreSorted(x []float64) bool
func Ints(x []int)
func IntsAreSorted(x []int) bool
func IsSorted(data Interface) bool
func Reverse(data Interface) Interface
func Search(n int, f func(int) bool) int
func SearchFloat64s(a []float64, x float64) int
func SearchInts(a []int, x int) int
func SearchStrings(a []string, x string) int
func Slice(x any, less func(i, j int) bool)
func SliceIsSorted(x any, less func(i, j int) bool) bool
func SliceStable(x any, less func(i, j int) bool)
func Sort(data Interface)
func Stable(data Interface)
func Strings(x []string)
func StringsAreSorted(x []string) bool
type reverse struct \x7b Interface \x7d
type xorshift uint64
type sortedHint int
type lessSwap struct \x7b Less func(i, j int) bool; Swap func(i, j int) \x7d
func breakPatterns(data Interface, a, b int)
func choosePivot(data Interface, a, b int) (pivot int, hint sortedHint)
func heapSort(data Interface, a, b int)
func insertionSort(data Interface, a, b int)
func median(data Interface, a, b, c int, swaps *int) int
func medianAdjacent(data Interface, a int, swaps *int) int
func nextPowerOfTwo(length int) uint
func order2(data Interface, a, b int, swaps *int) (int, int)
func partialInsertionSort(data Interface, a, b int) bool
func partition(data Interface, a, b, pivot int) (newpivot int, alreadyPartitioned bool)
func partitionEqual(data Interface, a, b, pivot int) (newpivot int)
func pdqsort(data Interface, a, b, limit int)
func reverseRange(data Interface, a, b int)
func rotate(data Interface, a, m, b int)
func siftDown(data Interface, lo, hi, first int)
func stable(data Interface, n int)
func swapRange(data Interface, a, b, n int)
func symMerge(data Interface, a, m, b int)
"

def mathPackage : Package where
  path := "math"
  name := "math"
  declarations := "const (
\tE   = 2.71828182845904523536028747135266249775724709369995957496696763
\tPi  = 3.14159265358979323846264338327950288419716939937510582097494459
\tPhi = 1.61803398874989484820458683436563811772030917980576286213544862
\tSqrt2   = 1.41421356237309504880168872420969807856967187537694807317667974
\tSqrtE   = 1.64872127070012814684865078781416357165377610071014801157507931
\tSqrtPi  = 1.77245385090551602729816748334114518279754945612238712821380779
\tSqrtPhi = 1.27201964951406896425242246173749149171560804184009624861664038
\tLn2    = 0.693147180559945309417232121458176568075500134360255254120680009
\tLog2E  = 1 / Ln2
\tLn10   = 2.30258509299404568401799145468436420760110148862877297603332790
\tLog10E = 1 / Ln10
\tMaxFloat32             = 0x1p127 * (1 + (1 - 0x1p-23))
\tSmallestNonzeroFloat32 = 0x1p-126 * 0x1p-23
\tMaxFloat64             = 0x1p1023 * (1 + (1 - 0x1p-52))
\tSmallestNonzeroFloat64 = 0x1p-1022 * 0x1p-52
\tMaxInt    = 1<<63 - 1
\tMinInt    = -1 << 63
\tMaxInt8   = 1<<7 - 1
\tMinInt8   = -1 << 7
\tMaxInt16  = 1<<15 - 1
\tMinInt16  = -1 << 15
\tMaxInt32  = 1<<31 - 1
\tMinInt32  = -1 << 31
\tMaxInt64  = 1<<63 - 1
\tMinInt64  = -1 << 63
\tMaxUint   = 1<<64 - 1
\tMaxUint8  = 1<<8 - 1
\tMaxUint16 = 1<<16 - 1
\tMaxUint32 = 1<<32 - 1
\tMaxUint64 = 1<<64 - 1
)
func Abs(x float64) float64
func Acos(x float64) float64
func Acosh(x float64) float64
func Asin(x float64) float64
func Asinh(x float64) float64
func Atan(x float64) float64
func Atan2(y, x float64) float64
func Atanh(x float64) float64
func Cbrt(x float64) float64
func Ceil(x float64) float64
func Copysign(f, sign float64) float64
func Cos(x float64) float64
func Cosh(x float64) float64
func Dim(x, y float64) float64
func Erf(x float64) float64
func Erfc(x float64) float64
func Erfcinv(x float64) float64
func Erfinv(x float64) float64
func Exp(x float64) float64
func Exp2(x float64) float64
func Expm1(x float64) float64
func FMA(x, y, z float64) float64
func Float32bits(f float32) uint32
func Float32frombits(b uint32) float32
func Float64bits(f float64) uint64
func Float64frombits(b uint64) float64
func Floor(x float64) float64
func Frexp(f float64) (frac float64, exp int)
func Gamma(x float64) float64
func Hypot(p, q float64) float64
func Ilogb(x float64) int
func Inf(sign int) float64
func IsInf(f float64, sign int) bool
func IsNaN(f float64) (is bool)
func J0(x float64) float64
func J1(x float64) float64
func Jn(n int, x float64) float64
func Ldexp(frac float64, exp int) float64
func Lgamma(x float64) (lgamma float64, sign int)
func Log(x float64) float64
func Log10(x float64) float64
func Log1p(x float64) float64
func Log2(x float64) float64
func Logb(x float64) float64
func Max(x, y float64) float64
func Min(x, y float64) float64
func Mod(x, y float64) float64
func Modf(f float64) (integer float64, fractional float64)
func NaN() float64
func Nextafter(x, y float64) (r float64)
func Nextafter32(x, y float32) (r float32)
func Pow(x, y float64) float64
func Pow10(n int) float64
func Remainder(x, y float64) float64
func Round(x float64) float64
func RoundToEven(x float64) float64
func Signbit(x float64) bool
func Sin(x float64) float64
func Sincos(x float64) (sin, cos float64)
func Sinh(x float64) float64
func Sqrt(x float64) float64
func Tan(x float64) float64
func Tanh(x float64) float64
func Trunc(x float64) float64
func Y0(x float64) float64
func Y1(x float64) float64
func Yn(n int, x float64) float64
func acos(x float64) float64
func acosh(x float64) float64
func asin(x float64) float64
func asinh(x float64) float64
func atan(x float64) float64
func atanh(x float64) float64
func cbrt(x float64) float64
func ceil(x float64) float64
func cos(x float64) float64
func cosh(x float64) float64
func erf(x float64) float64
func erfc(x float64) float64
func exp(x float64) float64
func exp2(x float64) float64
func expm1(x float64) float64
func floor(x float64) float64
func log(x float64) float64
func log10(x float64) float64
func log1p(x float64) float64
func log2(x float64) float64
func sin(x float64) float64
func sinh(x float64) float64
func sqrt(x float64) float64
func tan(x float64) float64
func tanh(x float64) float64
func trunc(x float64) float64
func atan2(x, y float64) float64
func expmulti(hi, lo float64, k int) float64
func hypot(x, y float64) float64
func max(x, y float64) float64
func min(x, y float64) float64
func mod(x, y float64) float64
func pow(x, y float64) float64
func remainder(x, y float64) float64
func frexp(f float64) (frac float64, exp int)
func isNegInt(x float64) bool
func isOddInt(x float64) bool
func ldexp(frac float64, exp int) float64
func modf(f float64) (int float64, frac float64)
func normalize(x float64) (y float64, exp int)
func satan(x float64) float64
func sinPi(x float64) float64
func stirling(x float64) (float64, float64)
func trigReduce(x float64) (j uint64, z float64)
func xatan(x float64) float64
"

def mathBitsPackage : Package where
  path := "math/bits"
  name := "bits"
  declarations := "const UintSize = 64
func Len(x uint) int
func Len64(x uint64) (n int)
func LeadingZeros(x uint) int
func LeadingZeros64(x uint64) int
func OnesCount(x uint) int
func OnesCount64(x uint64) int
func Reverse(x uint) uint
func RotateLeft(x uint, k int) uint
func TrailingZeros(x uint) int
func TrailingZeros64(x uint64) int
"

def mathRandPackage : Package where
  path := "math/rand"
  name := "rand"
  declarations := "type Source interface \x7b Int63() int64; Seed(seed int64) \x7d
type Rand struct \x7b src Source \x7d
func New(src Source) *Rand
func NewSource(seed int64) Source
func (r *Rand) Float64() float64
func (r *Rand) Int() int
func (r *Rand) Int63() int64
func (r *Rand) Intn(n int) int
func (r *Rand) Perm(n int) []int
func (r *Rand) Shuffle(n int, swap func(i, j int))
func Float32() float32
func Float64() float64
func Int() int
func Int31() int32
func Int31n(n int32) int32
func Int63() int64
func Int63n(n int64) int64
func Intn(n int) int
func Perm(n int) []int
func Seed(seed int64)
func Shuffle(n int, swap func(i, j int))
func Uint32() uint32
func Uint64() uint64
"

def syncPackage : Package where
  path := "sync"
  name := "sync"
  declarations := "type Locker interface \x7b Lock(); Unlock() \x7d
type Mutex struct \x7b state int32 \x7d
func (m *Mutex) Lock()
func (m *Mutex) TryLock() bool
func (m *Mutex) Unlock()
type RWMutex struct \x7b w Mutex \x7d
func (rw *RWMutex) Lock()
func (rw *RWMutex) RLock()
func (rw *RWMutex) RLocker() Locker
func (rw *RWMutex) RUnlock()
func (rw *RWMutex) TryLock() bool
func (rw *RWMutex) TryRLock() bool
func (rw *RWMutex) Unlock()
type Once struct \x7b done bool \x7d
func (o *Once) Do(f func())
type WaitGroup struct \x7b n int \x7d
func (wg *WaitGroup) Add(delta int)
func (wg *WaitGroup) Done()
func (wg *WaitGroup) Go(f func())
func (wg *WaitGroup) Wait()
type Cond struct \x7b L Locker; n int \x7d
func NewCond(l Locker) *Cond
func (c *Cond) Broadcast()
func (c *Cond) Signal()
func (c *Cond) Wait()
type Pool struct \x7b local uintptr; New func() any \x7d
func (p *Pool) Get() any
func (p *Pool) Put(x any)
type Map struct \x7b m int \x7d
func (m *Map) Clear()
func (m *Map) CompareAndDelete(key, old any) (deleted bool)
func (m *Map) CompareAndSwap(key, old, new any) (swapped bool)
func (m *Map) Delete(key any)
func (m *Map) Load(key any) (value any, ok bool)
func (m *Map) LoadAndDelete(key any) (value any, loaded bool)
func (m *Map) LoadOrStore(key, value any) (actual any, loaded bool)
func (m *Map) Range(f func(key, value any) bool)
func (m *Map) Store(key, value any)
func (m *Map) Swap(key, value any) (previous any, loaded bool)
func OnceFunc(f func()) func()
func OnceValue[T any](f func() T) func() T
func OnceValues[T1, T2 any](f func() (T1, T2)) func() (T1, T2)
"

def syncAtomicPackage : Package where
  path := "sync/atomic"
  name := "atomic"
  declarations := "import \"unsafe\"
func AddInt32(addr *int32, delta int32) (new int32)
func AddInt64(addr *int64, delta int64) (new int64)
func AddUint32(addr *uint32, delta uint32) (new uint32)
func AddUint64(addr *uint64, delta uint64) (new uint64)
func CompareAndSwapInt32(addr *int32, old, new int32) (swapped bool)
func CompareAndSwapInt64(addr *int64, old, new int64) (swapped bool)
func LoadInt32(addr *int32) (val int32)
func LoadInt64(addr *int64) (val int64)
func LoadPointer(addr *unsafe.Pointer) (val unsafe.Pointer)
func LoadUint32(addr *uint32) (val uint32)
func LoadUint64(addr *uint64) (val uint64)
func StoreInt32(addr *int32, val int32)
func StoreInt64(addr *int64, val int64)
func StoreUint32(addr *uint32, val uint32)
func StoreUint64(addr *uint64, val uint64)
type Bool struct \x7b v uint32 \x7d
func (x *Bool) CompareAndSwap(old, new bool) (swapped bool)
func (x *Bool) Load() bool
func (x *Bool) Store(val bool)
func (x *Bool) Swap(new bool) (old bool)
type Int32 struct \x7b v int32 \x7d
func (x *Int32) Add(delta int32) (new int32)
func (x *Int32) Load() int32
func (x *Int32) Store(val int32)
type Int64 struct \x7b v int64 \x7d
func (x *Int64) Add(delta int64) (new int64)
func (x *Int64) Load() int64
func (x *Int64) Store(val int64)
type Value struct \x7b v any \x7d
func (v *Value) Load() (val any)
func (v *Value) Store(val any)
type Pointer[T any] struct \x7b v unsafe.Pointer \x7d
func (x *Pointer[T]) Load() *T
func (x *Pointer[T]) Store(val *T)
"

def cmpPackage : Package where
  path := "cmp"
  name := "cmp"
  declarations := "type Ordered interface \x7b
\t~int | ~int8 | ~int16 | ~int32 | ~int64 | ~uint | ~uint8 | ~uint16 | ~uint32 | ~uint64 | ~uintptr | ~float32 | ~float64 | ~string
\x7d
func Compare[T Ordered](x, y T) int
func Less[T Ordered](x, y T) bool
func Or[T comparable](vals ...T) T
"

def slicesPackage : Package where
  path := "slices"
  name := "slices"
  declarations := "import (
\t\"cmp\"
\t\"iter\"
)
func All[Slice ~[]E, E any](s Slice) iter.Seq2[int, E]
func AppendSeq[Slice ~[]E, E any](s Slice, seq iter.Seq[E]) Slice
func Backward[Slice ~[]E, E any](s Slice) iter.Seq2[int, E]
func BinarySearch[S ~[]E, E cmp.Ordered](x S, target E) (int, bool)
func BinarySearchFunc[S ~[]E, E, T any](x S, target T, cmp func(E, T) int) (int, bool)
func Chunk[Slice ~[]E, E any](s Slice, n int) iter.Seq[Slice]
func Clip[S ~[]E, E any](s S) S
func Clone[S ~[]E, E any](s S) S
func Collect[E any](seq iter.Seq[E]) []E
func Compact[S ~[]E, E comparable](s S) S
func CompactFunc[S ~[]E, E any](s S, eq func(E, E) bool) S
func Compare[S ~[]E, E cmp.Ordered](s1, s2 S) int
func Concat[S ~[]E, E any](slices ...S) S
func Contains[S ~[]E, E comparable](s S, v E) bool
func ContainsFunc[S ~[]E, E any](s S, f func(E) bool) bool
func Delete[S ~[]E, E any](s S, i, j int) S
func DeleteFunc[S ~[]E, E any](s S, del func(E) bool) S
func Equal[S ~[]E, E comparable](s1, s2 S) bool
func Grow[S ~[]E, E any](s S, n int) S
func Index[S ~[]E, E comparable](s S, v E) int
func IndexFunc[S ~[]E, E any](s S, f func(E) bool) int
func Insert[S ~[]E, E any](s S, i int, v ...E) S
func IsSorted[S ~[]E, E cmp.Ordered](x S) bool
func Max[S ~[]E, E cmp.Ordered](x S) E
func MaxFunc[S ~[]E, E any](x S, cmp func(a, b E) int) E
func Min[S ~[]E, E cmp.Ordered](x S) E
func MinFunc[S ~[]E, E any](x S, cmp func(a, b E) int) E
func Repeat[S ~[]E, E any](x S, count int) S
func Replace[S ~[]E, E any](s S, i, j int, v ...E) S
func Reverse[S ~[]E, E any](s S)
func Sort[S ~[]E, E cmp.Ordered](x S)
func SortFunc[S ~[]E, E any](x S, cmp func(a, b E) int)
func SortStableFunc[S ~[]E, E any](x S, cmp func(a, b E) int)
func Sorted[E cmp.Ordered](seq iter.Seq[E]) []E
func Values[Slice ~[]E, E any](s Slice) iter.Seq[E]
"

def mapsPackage : Package where
  path := "maps"
  name := "maps"
  declarations := "import \"iter\"
func All[Map ~map[K]V, K comparable, V any](m Map) iter.Seq2[K, V]
func Clone[M ~map[K]V, K comparable, V any](m M) M
func Collect[K comparable, V any](seq iter.Seq2[K, V]) map[K]V
func Copy[M1 ~map[K]V, M2 ~map[K]V, K comparable, V any](dst M1, src M2)
func DeleteFunc[M ~map[K]V, K comparable, V any](m M, del func(K, V) bool)
func Equal[M1, M2 ~map[K]V, K, V comparable](m1 M1, m2 M2) bool
func Insert[Map ~map[K]V, K comparable, V any](m Map, seq iter.Seq2[K, V])
func Keys[Map ~map[K]V, K comparable, V any](m Map) iter.Seq[K]
func Values[Map ~map[K]V, K comparable, V any](m Map) iter.Seq[V]
"

def encodingJsonPackage : Package where
  path := "encoding/json"
  name := "json"
  declarations := "import (
\t\"bytes\"
\t\"io\"
)
type Delim rune
type Number string
type RawMessage []byte
type Token any
type Marshaler interface \x7b MarshalJSON() ([]byte, error) \x7d
type Unmarshaler interface \x7b UnmarshalJSON([]byte) error \x7d
type Decoder struct \x7b r io.Reader \x7d
func NewDecoder(r io.Reader) *Decoder
func (dec *Decoder) Decode(v any) error
func (dec *Decoder) DisallowUnknownFields()
func (dec *Decoder) More() bool
func (dec *Decoder) Token() (Token, error)
func (dec *Decoder) UseNumber()
type Encoder struct \x7b w io.Writer \x7d
func NewEncoder(w io.Writer) *Encoder
func (enc *Encoder) Encode(v any) error
func (enc *Encoder) SetEscapeHTML(on bool)
func (enc *Encoder) SetIndent(prefix, indent string)
func (n Number) Float64() (float64, error)
func (n Number) Int64() (int64, error)
func (n Number) String() string
func Compact(dst *bytes.Buffer, src []byte) error
func Indent(dst *bytes.Buffer, src []byte, prefix, indent string) error
func Marshal(v any) ([]byte, error)
func MarshalIndent(v any, prefix, indent string) ([]byte, error)
func Unmarshal(data []byte, v any) error
func Valid(data []byte) bool
"

def containerListPackage : Package where
  path := "container/list"
  name := "list"
  declarations := "type Element struct \x7b next, prev *Element; list *List; Value any \x7d
func (e *Element) Next() *Element
func (e *Element) Prev() *Element
type List struct \x7b root Element; len int \x7d
func New() *List
func (l *List) Back() *Element
func (l *List) Front() *Element
func (l *List) Init() *List
func (l *List) InsertAfter(v any, mark *Element) *Element
func (l *List) InsertBefore(v any, mark *Element) *Element
func (l *List) Len() int
func (l *List) MoveToBack(e *Element)
func (l *List) MoveToFront(e *Element)
func (l *List) PushBack(v any) *Element
func (l *List) PushFront(v any) *Element
func (l *List) Remove(e *Element) any
"

def unsafePackage : Package where
  path := "unsafe"
  name := "unsafe"
  declarations := "
"

def sugarPackage : Package where
  path := "github.com/orizon-lang/gosugar/sugar"
  name := "sugar"
  declarations := "type Number interface \x7b
\t~int | ~int8 | ~int16 | ~int32 | ~int64 | ~uint | ~uint8 | ~uint16 | ~uint32 | ~uint64 | ~uintptr | ~float32 | ~float64 | ~complex64 | ~complex128
\x7d
type Pair[K comparable, V any] struct \x7b
\tKey   K
\tValue V
\x7d
func Inc[T Number](p *T) T
func Dec[T Number](p *T) T
func Entry[K comparable, V any](k K, v V) Pair[K, V]
func MapOf[K comparable, V any](entries ...Pair[K, V]) map[K]V
func Clone[S ~[]E, E any](s S) S
func Elem[S ~[]E, E any](s S) E
func Fill[T any](v T) T
func Spread[F any](sample F, each func(yield func(any))) []F
"

def truthPackage : Package where
  path := "github.com/orizon-lang/gosugar/truth"
  name := "truth"
  declarations := "type Booler interface \x7b
\tAsBool() bool
\x7d
func Of[T any](v T) bool
"

/-- Declarations of the known packages for data and algorithms, and of those of the expansions. -/
def dataPackages : List Package :=
  [errorsPackage, reflectlitePackage, iterPackage, sortPackage, mathPackage, mathBitsPackage,
   mathRandPackage, syncPackage, syncAtomicPackage, cmpPackage, slicesPackage, mapsPackage,
   encodingJsonPackage, containerListPackage, unsafePackage, sugarPackage, truthPackage]

end Desugar.Typing.Library
