import Railgun.Impl.Poseidon

/-!
# Poseidon on pairs

The circom parameters for three state elements, the only ones a Merkle tree
uses: the matrix and the round constants as `params/mds_t3.bin` and
`params/rc_t3.bin` hold them, and what `PoseidonParams::new` derives from them
for the optimised partial rounds.
-/

namespace Railgun

/-- `get_t3_params`. -/
def poseidonT3 : PoseidonParams where
  t := 3
  d := 5
  roundsFBeginning := 4
  roundsP := 57
  rounds := 65
  mds := [
    [0x109b7f411ba0e4c9b2b70caf5c36a7b194be7c11ad24378bfedb68592ba8118b,
      0x16ed41e13bb9c0c66ae119424fddbcbc9314dc9fdbdeea55d6c64543dc4903e0,
      0x2b90bba00fca0589f617e7dcbfe82e0df706ab640ceb247b791a93b74e36736d],
    [0x2969f27eed31a480b9c36c764379dbca2cc8fdd1415c3dded62940bcde0bd771,
      0x2e2419f9ec02ec394c9871c832963dc1b89d743c8c7b964029b2311687b1fe23,
      0x101071f0032379b697315876690f053d148d4e109f5fb065c8aacc55a0f89bfa],
    [0x143021ec686a3f330d5f9e654638065ce6cd79e28c5b3753326244ee65a1b1a7,
      0x176cc029695ad02582a70eff08a6fd99d057e12e58e7d7b6b16cdfabc8ee2911,
      0x19a3fc0a56702bf417ba7fee3802593fa644470307043f7773279cd71d25d5e0]]
  roundConstants := [
    [0xee9a592ba9a9518d05986d656f40c2114c4993c11bb29938d21d47304cd8e6e,
      0xf1445235f2148c5986587169fc1bcd887b08d4d00868df5696fff40956e864,
      0x8dff3487e8ac99e1f29a058d0fa80b930c728730b7ab36ce879f3890ecf73f5],
    [0x2f27be690fdaee46c3ce28f7532b13c856c35342c84bda6e20966310fadc01d0,
      0x2b2ae1acf68b7b8d2416bebf3d4f6234b763fe04b8043ee48b8327bebca16cf2,
      0x319d062072bef7ecca5eac06f97d4d55952c175ab6b03eae64b44c7dbf11cfa],
    [0x28813dcaebaeaa828a376df87af4a63bc8b7bf27ad49c6298ef7b387bf28526d,
      0x2727673b2ccbc903f181bf38e1c1d40d2033865200c352bc150928adddf9cb78,
      0x234ec45ca27727c2e74abd2b2a1494cd6efbd43e340587d6b8fb9e31e65cc632],
    [0x15b52534031ae18f7f862cb2cf7cf760ab10a8150a337b1ccd99ff6e8797d428,
      0xdc8fad6d9e4b35f5ed9a3d186b79ce38e0e8a8d1b58b132d701d4eecf68d1f6,
      0x1bcd95ffc211fbca600f705fad3fb567ea4eb378f62e1fec97805518a47e4d9c],
    [0x10520b0ab721cadfe9eff81b016fc34dc76da36c2578937817cb978d069de559,
      0x1f6d48149b8e7f7d9b257d8ed5fbbaf42932498075fed0ace88a9eb81f5627f6,
      0x1d9655f652309014d29e00ef35a2089bfff8dc1c816f0dc9ca34bdb5460c8705],
    [0x4df5a56ff95bcafb051f7b1cd43a99ba731ff67e47032058fe3d4185697cc7d,
      0x672d995f8fff640151b3d290cedaf148690a10a8c8424a7f6ec282b6e4be828,
      0x99952b414884454b21200d7ffafdd5f0c9a9dcc06f2708e9fc1d8209b5c75b9],
    [0x52cba2255dfd00c7c483143ba8d469448e43586a9b4cd9183fd0e843a6b9fa6,
      0xb8badee690adb8eb0bd74712b7999af82de55707251ad7716077cb93c464ddc,
      0x119b1590f13307af5a1ee651020c07c749c15d60683a8050b963d0a8e4b2bdd1],
    [0x3150b7cd6d5d17b2529d36be0f67b832c4acfc884ef4ee5ce15be0bfb4a8d09,
      0x2cc6182c5e14546e3cf1951f173912355374efb83d80898abe69cb317c9ea565,
      0x5032551e6378c450cfe129a404b3764218cadedac14e2b92d2cd73111bf0f9],
    [0x233237e3289baa34bb147e972ebcb9516469c399fcc069fb88f9da2cc28276b5,
      0x5c8f4f4ebd4a6e3c980d31674bfbe6323037f21b34ae5a4e80c2d4c24d60280,
      0xa7b1db13042d396ba05d818a319f25252bcf35ef3aeed91ee1f09b2590fc65b],
    [0x2a73b71f9b210cf5b14296572c9d32dbf156e2b086ff47dc5df542365a404ec0,
      0x1ac9b0417abcc9a1935107e9ffc91dc3ec18f2c4dbe7f22976a760bb5c50c460,
      0x12c0339ae08374823fabb076707ef479269f3e4d6cb104349015ee046dc93fc0],
    [0xb7475b102a165ad7f5b18db4e1e704f52900aa3253baac68246682e56e9a28e,
      0x37c2849e191ca3edb1c5e49f6e8b8917c843e379366f2ea32ab3aa88d7f8448,
      0x5a6811f8556f014e92674661e217e9bd5206c5c93a07dc145fdb176a716346f],
    [0x29a795e7d98028946e947b75d54e9f044076e87a7b2883b47b675ef5f38bd66e,
      0x20439a0c84b322eb45a3857afc18f5826e8c7382c8a1585c507be199981fd22f,
      0x2e0ba8d94d9ecf4a94ec2050c7371ff1bb50f27799a84b6d4a2a6f2a0982c887],
    [0x143fd115ce08fb27ca38eb7cce822b4517822cd2109048d2e6d0ddcca17d71c8,
      0xc64cbecb1c734b857968dbbdcf813cdf8611659323dbcbfc84323623be9caf1,
      0x28a305847c683f646fca925c163ff5ae74f348d62c2b670f1426cef9403da53],
    [0x2e4ef510ff0b6fda5fa940ab4c4380f26a6bcb64d89427b824d6755b5db9e30c,
      0x81c95bc43384e663d79270c956ce3b8925b4f6d033b078b96384f50579400e,
      0x2ed5f0c91cbd9749187e2fade687e05ee2491b349c039a0bba8a9f4023a0bb38],
    [0x30509991f88da3504bbf374ed5aae2f03448a22c76234c8c990f01f33a735206,
      0x1c3f20fd55409a53221b7c4d49a356b9f0a1119fb2067b41a7529094424ec6ad,
      0x10b4e7f3ab5df003049514459b6e18eec46bb2213e8e131e170887b47ddcb96c],
    [0x2a1982979c3ff7f43ddd543d891c2abddd80f804c077d775039aa3502e43adef,
      0x1c74ee64f15e1db6feddbead56d6d55dba431ebc396c9af95cad0f1315bd5c91,
      0x7533ec850ba7f98eab9303cace01b4b9e4f2e8b82708cfa9c2fe45a0ae146a0],
    [0x21576b438e500449a151e4eeaf17b154285c68f42d42c1808a11abf3764c0750,
      0x2f17c0559b8fe79608ad5ca193d62f10bce8384c815f0906743d6930836d4a9e,
      0x2d477e3862d07708a79e8aae946170bc9775a4201318474ae665b0b1b7e2730e],
    [0x162f5243967064c390e095577984f291afba2266c38f5abcd89be0f5b2747eab,
      0x2b4cb233ede9ba48264ecd2c8ae50d1ad7a8596a87f29f8a7777a70092393311,
      0x2c8fbcb2dd8573dc1dbaf8f4622854776db2eece6d85c4cf4254e7c35e03b07a],
    [0x1d6f347725e4816af2ff453f0cd56b199e1b61e9f601e9ade5e88db870949da9,
      0x204b0c397f4ebe71ebc2d8b3df5b913df9e6ac02b68d31324cd49af5c4565529,
      0xc4cb9dc3c4fd8174f1149b3c63c3c2f9ecb827cd7dc25534ff8fb75bc79c502],
    [0x174ad61a1448c899a25416474f4930301e5c49475279e0639a616ddc45bc7b54,
      0x1a96177bcf4d8d89f759df4ec2f3cde2eaaa28c177cc0fa13a9816d49a38d2ef,
      0x66d04b24331d71cd0ef8054bc60c4ff05202c126a233c1a8242ace360b8a30a],
    [0x2a4c4fc6ec0b0cf52195782871c6dd3b381cc65f72e02ad527037a62aa1bd804,
      0x13ab2d136ccf37d447e9f2e14a7cedc95e727f8446f6d9d7e55afc01219fd649,
      0x1121552fca26061619d24d843dc82769c1b04fcec26f55194c2e3e869acc6a9a],
    [0xef653322b13d6c889bc81715c37d77a6cd267d595c4a8909a5546c7c97cff1,
      0xe25483e45a665208b261d8ba74051e6400c776d652595d9845aca35d8a397d3,
      0x29f536dcb9dd7682245264659e15d88e395ac3d4dde92d8c46448db979eeba89],
    [0x2a56ef9f2c53febadfda33575dbdbd885a124e2780bbea170e456baace0fa5be,
      0x1c8361c78eb5cf5decfb7a2d17b5c409f2ae2999a46762e8ee416240a8cb9af1,
      0x151aff5f38b20a0fc0473089aaf0206b83e8e68a764507bfd3d0ab4be74319c5],
    [0x4c6187e41ed881dc1b239c88f7f9d43a9f52fc8c8b6cdd1e76e47615b51f100,
      0x13b37bd80f4d27fb10d84331f6fb6d534b81c61ed15776449e801b7ddc9c2967,
      0x1a5c536273c2d9df578bfbd32c17b7a2ce3664c2a52032c9321ceb1c4e8a8e4],
    [0x2ab3561834ca73835ad05f5d7acb950b4a9a2c666b9726da832239065b7c3b02,
      0x1d4d8ec291e720db200fe6d686c0d613acaf6af4e95d3bf69f7ed516a597b646,
      0x41294d2cc484d228f5784fe7919fd2bb925351240a04b711514c9c80b65af1d],
    [0x154ac98e01708c611c4fa715991f004898f57939d126e392042971dd90e81fc6,
      0xb339d8acca7d4f83eedd84093aef51050b3684c88f8b0b04524563bc6ea4da4,
      0x955e49e6610c94254a4f84cfbab344598f0e71eaff4a7dd81ed95b50839c82e],
    [0x6746a6156eba54426b9e22206f15abca9a6f41e6f535c6f3525401ea0654626,
      0xf18f5a0ecd1423c496f3820c549c27838e5790e2bd0a196ac917c7ff32077fb,
      0x4f6eeca1751f7308ac59eff5beb261e4bb563583ede7bc92a738223d6f76e13],
    [0x2b56973364c4c4f5c1a3ec4da3cdce038811eb116fb3e45bc1768d26fc0b3758,
      0x123769dd49d5b054dcd76b89804b1bcb8e1392b385716a5d83feb65d437f29ef,
      0x2147b424fc48c80a88ee52b91169aacea989f6446471150994257b2fb01c63e9],
    [0xfdc1f58548b85701a6c5505ea332a29647e6f34ad4243c2ea54ad897cebe54d,
      0x12373a8251fea004df68abcf0f7786d4bceff28c5dbbe0c3944f685cc0a0b1f2,
      0x21e4f4ea5f35f85bad7ea52ff742c9e8a642756b6af44203dd8a1f35c1a90035],
    [0x16243916d69d2ca3dfb4722224d4c462b57366492f45e90d8a81934f1bc3b147,
      0x1efbe46dd7a578b4f66f9adbc88b4378abc21566e1a0453ca13a4159cac04ac2,
      0x7ea5e8537cf5dd08886020e23a7f387d468d5525be66f853b672cc96a88969a],
    [0x5a8c4f9968b8aa3b7b478a30f9a5b63650f19a75e7ce11ca9fe16c0b76c00bc,
      0x20f057712cc21654fbfe59bd345e8dac3f7818c701b9c7882d9d57b72a32e83f,
      0x4a12ededa9dfd689672f8c67fee31636dcd8e88d01d49019bd90b33eb33db69],
    [0x27e88d8c15f37dcee44f1e5425a51decbd136ce5091a6767e49ec9544ccd101a,
      0x2feed17b84285ed9b8a5c8c5e95a41f66e096619a7703223176c41ee433de4d1,
      0x1ed7cc76edf45c7c404241420f729cf394e5942911312a0d6972b8bd53aff2b8],
    [0x15742e99b9bfa323157ff8c586f5660eac6783476144cdcadf2874be45466b1a,
      0x1aac285387f65e82c895fc6887ddf40577107454c6ec0317284f033f27d0c785,
      0x25851c3c845d4790f9ddadbdb6057357832e2e7a49775f71ec75a96554d67c77],
    [0x15a5821565cc2ec2ce78457db197edf353b7ebba2c5523370ddccc3d9f146a67,
      0x2411d57a4813b9980efa7e31a1db5966dcf64f36044277502f15485f28c71727,
      0x2e6f8d6520cd4713e335b8c0b6d2e647e9a98e12f4cd2558828b5ef6cb4c9b],
    [0x2ff7bc8f4380cde997da00b616b0fcd1af8f0e91e2fe1ed7398834609e0315d2,
      0xb9831b948525595ee02724471bcd182e9521f6b7bb68f1e93be4febb0d3cbe,
      0xa2f53768b8ebf6a86913b0e57c04e011ca408648a4743a87d77adbf0c9c3512],
    [0x248156142fd0373a479f91ff239e960f599ff7e94be69b7f2a290305e1198d,
      0x171d5620b87bfb1328cf8c02ab3f0c9a397196aa6a542c2350eb512a2b2bcda9,
      0x170a4f55536f7dc970087c7c10d6fad760c952172dd54dd99d1045e4ec34a808],
    [0x29aba33f799fe66c2ef3134aea04336ecc37e38c1cd211ba482eca17e2dbfae1,
      0x1e9bc179a4fdd758fdd1bb1945088d47e70d114a03f6a0e8b5ba650369e64973,
      0x1dd269799b660fad58f7f4892dfb0b5afeaad869a9c4b44f9c9e1c43bdaf8f09],
    [0x22cdbc8b70117ad1401181d02e15459e7ccd426fe869c7c95d1dd2cb0f24af38,
      0xef042e454771c533a9f57a55c503fcefd3150f52ed94a7cd5ba93b9c7dacefd,
      0x11609e06ad6c8fe2f287f3036037e8851318e8b08a0359a03b304ffca62e8284],
    [0x1166d9e554616dba9e753eea427c17b7fecd58c076dfe42708b08f5b783aa9af,
      0x2de52989431a859593413026354413db177fbf4cd2ac0b56f855a888357ee466,
      0x3006eb4ffc7a85819a6da492f3a8ac1df51aee5b17b8e89d74bf01cf5f71e9ad],
    [0x2af41fbb61ba8a80fdcf6fff9e3f6f422993fe8f0a4639f962344c8225145086,
      0x119e684de476155fe5a6b41a8ebc85db8718ab27889e85e781b214bace4827c3,
      0x1835b786e2e8925e188bea59ae363537b51248c23828f047cff784b97b3fd800],
    [0x28201a34c594dfa34d794996c6433a20d152bac2a7905c926c40e285ab32eeb6,
      0x83efd7a27d1751094e80fefaf78b000864c82eb571187724a761f88c22cc4e7,
      0xb6f88a3577199526158e61ceea27be811c16df7774dd8519e079564f61fd13b],
    [0xec868e6d15e51d9644f66e1d6471a94589511ca00d29e1014390e6ee4254f5b,
      0x2af33e3f866771271ac0c9b3ed2e1142ecd3e74b939cd40d00d937ab84c98591,
      0xb520211f904b5e7d09b5d961c6ace7734568c547dd6858b364ce5e47951f178],
    [0xb2d722d0919a1aad8db58f10062a92ea0c56ac4270e822cca228620188a1d40,
      0x1f790d4d7f8cf094d980ceb37c2453e957b54a9991ca38bbe0061d1ed6e562d4,
      0x171eb95dfbf7d1eaea97cd385f780150885c16235a2a6a8da92ceb01e504233],
    [0xc2d0e3b5fd57549329bf6885da66b9b790b40defd2c8650762305381b168873,
      0x1162fb28689c27154e5a8228b4e72b377cbcafa589e283c35d3803054407a18d,
      0x2f1459b65dee441b64ad386a91e8310f282c5a92a89e19921623ef8249711bc0],
    [0x1e6ff3216b688c3d996d74367d5cd4c1bc489d46754eb712c243f70d1b53cfbb,
      0x1ca8be73832b8d0681487d27d157802d741a6f36cdc2a0576881f9326478875,
      0x1f7735706ffe9fc586f976d5bdf223dc680286080b10cea00b9b5de315f9650e],
    [0x2522b60f4ea3307640a0c2dce041fba921ac10a3d5f096ef4745ca838285f019,
      0x23f0bee001b1029d5255075ddc957f833418cad4f52b6c3f8ce16c235572575b,
      0x2bc1ae8b8ddbb81fcaac2d44555ed5685d142633e9df905f66d9401093082d59],
    [0xf9406b8296564a37304507b8dba3ed162371273a07b1fc98011fcd6ad72205f,
      0x2360a8eb0cc7defa67b72998de90714e17e75b174a52ee4acb126c8cd995f0a8,
      0x15871a5cddead976804c803cbaef255eb4815a5e96df8b006dcbbc2767f88948],
    [0x193a56766998ee9e0a8652dd2f3b1da0362f4f54f72379544f957ccdeefb420f,
      0x2a394a43934f86982f9be56ff4fab1703b2e63c8ad334834e4309805e777ae0f,
      0x1859954cfeb8695f3e8b635dcb345192892cd11223443ba7b4166e8876c0d142],
    [0x4e1181763050e58013444dbcb99f1902b11bc25d90bbdca408d3819f4fed32b,
      0xfdb253dee83869d40c335ea64de8c5bb10eb82db08b5e8b1f5e5552bfd05f23,
      0x58cbe8a9a5027bdaa4efb623adead6275f08686f1c08984a9d7c5bae9b4f1c0],
    [0x1382edce9971e186497eadb1aeb1f52b23b4b83bef023ab0d15228b4cceca59a,
      0x3464990f045c6ee0819ca51fd11b0be7f61b8eb99f14b77e1e6634601d9e8b5,
      0x23f7bfc8720dc296fff33b41f98ff83c6fcab4605db2eb5aaa5bc137aeb70a58],
    [0xa59a158e3eec2117e6e94e7f0e9decf18c3ffd5e1531a9219636158bbaf62f2,
      0x6ec54c80381c052b58bf23b312ffd3ce2c4eba065420af8f4c23ed0075fd07b,
      0x118872dc832e0eb5476b56648e867ec8b09340f7a7bcb1b4962f0ff9ed1f9d01],
    [0x13d69fa127d834165ad5c7cba7ad59ed52e0b0f0e42d7fea95e1906b520921b1,
      0x169a177f63ea681270b1c6877a73d21bde143942fb71dc55fd8a49f19f10c77b,
      0x4ef51591c6ead97ef42f287adce40d93abeb032b922f66ffb7e9a5a7450544d],
    [0x256e175a1dc079390ecd7ca703fb2e3b19ec61805d4f03ced5f45ee6dd0f69ec,
      0x30102d28636abd5fe5f2af412ff6004f75cc360d3205dd2da002813d3e2ceeb2,
      0x10998e42dfcd3bbf1c0714bc73eb1bf40443a3fa99bef4a31fd31be182fcc792],
    [0x193edd8e9fcf3d7625fa7d24b598a1d89f3362eaf4d582efecad76f879e36860,
      0x18168afd34f2d915d0368ce80b7b3347d1c7a561ce611425f2664d7aa51f0b5d,
      0x29383c01ebd3b6ab0c017656ebe658b6a328ec77bc33626e29e2e95b33ea6111],
    [0x10646d2f2603de39a1f4ae5e7771a64a702db6e86fb76ab600bf573f9010c711,
      0xbeb5e07d1b27145f575f1395a55bf132f90c25b40da7b3864d0242dcb1117fb,
      0x16d685252078c133dc0d3ecad62b5c8830f95bb2e54b59abdffbf018d96fa336],
    [0xa6abd1d833938f33c74154e0404b4b40a555bbbec21ddfafd672dd62047f01a,
      0x1a679f5d36eb7b5c8ea12a4c2dedc8feb12dffeec450317270a6f19b34cf1860,
      0x980fb233bd456c23974d50e0ebfde4726a423eada4e8f6ffbc7592e3f1b93d6],
    [0x161b42232e61b84cbf1810af93a38fc0cece3d5628c9282003ebacb5c312c72b,
      0xada10a90c7f0520950f7d47a60d5e6a493f09787f1564e5d09203db47de1a0b,
      0x1a730d372310ba82320345a29ac4238ed3f07a8a2b4e121bb50ddb9af407f451],
    [0x2c8120f268ef054f817064c369dda7ea908377feaba5c4dffbda10ef58e8c556,
      0x1c7c8824f758753fa57c00789c684217b930e95313bcb73e6e7b8649a4968f70,
      0x2cd9ed31f5f8691c8e39e4077a74faa0f400ad8b491eb3f7b47b27fa3fd1cf77],
    [0x23ff4f9d46813457cf60d92f57618399a5e022ac321ca550854ae23918a22eea,
      0x9945a5d147a4f66ceece6405dddd9d0af5a2c5103529407dff1ea58f180426d,
      0x188d9c528025d4c2b67660c6b771b90f7c7da6eaa29d3f268a6dd223ec6fc630],
    [0x3050e37996596b7f81f68311431d8734dba7d926d3633595e0c0d8ddf4f0f47f,
      0x15af1169396830a91600ca8102c35c426ceae5461e3f95d89d829518d30afd78,
      0x1da6d09885432ea9a06d9f37f873d985dae933e351466b2904284da3320d8acc],
    [0x2796ea90d269af29f5f8acf33921124e4e4fad3dbe658945e546ee411ddaa9cb,
      0x202d7dd1da0f6b4b0325c8b3307742f01e15612ec8e9304a7cb0319e01d32d60,
      0x96d6790d05bb759156a952ba263d672a2d7f9c788f4c831a29dace4c0f8be5f],
    [0x54efa1f65b0fce283808965275d877b438da23ce5b13e1963798cb1447d25a4,
      0x1b162f83d917e93edb3308c29802deb9d8aa690113b2e14864ccf6e18e4165f1,
      0x21e5241e12564dd6fd9f1cdd2a0de39eedfefc1466cc568ec5ceb745a0506edc],
    [0x1cfb5662e8cf5ac9226a80ee17b36abecb73ab5f87e161927b4349e10e4bdf08,
      0xf21177e302a771bbae6d8d1ecb373b62c99af346220ac0129c53f666eb24100,
      0x1671522374606992affb0dd7f71b12bec4236aede6290546bcef7e1f515c2320],
    [0xfa3ec5b9488259c2eb4cf24501bfad9be2ec9e42c5cc8ccd419d2a692cad870,
      0x193c0e04e0bd298357cb266c1506080ed36edce85c648cc085e8c57b1ab54bba,
      0x102adf8ef74735a27e9128306dcbc3c99f6f7291cd406578ce14ea2adaba68f8],
    [0xfe0af7858e49859e2a54d6f1ad945b1316aa24bfbdd23ae40a6d0cb70c3eab1,
      0x216f6717bbc7dedb08536a2220843f4e2da5f1daa9ebdefde8a5ea7344798d22,
      0x1da55cc900f0d21f4a3e694391918a1b3c23b2ac773c6b3ef88e2e4228325161]]
  optRoundConstants := [
    [0x10520b0ab721cadfe9eff81b016fc34dc76da36c2578937817cb978d069de559,
      0x2ba6ccdcecf67768055cf4d0c01f887f9fb34b95709ba0d51ae7857304811eb6,
      0xb4333d16604e6a9e96a348eff612dde72a6085d861401937635479f5fa1edef],
    [0x199c7d34412cfe7e4a88143ca71cf4ce1444d6b847759f3dc64f2fb13739268b],
    [0x1bac613e7d897eafa395755cd0ad8520546efd7ea3da6051780e0cfdf8a7a8f6],
    [0x9f2da11af0b15d147b4a0ad2b79df633e5af9fc1fbd1636260973ad3024a562],
    [0x2447d827f0ef87b89d2525dbb3fd634b4e8584f165faf7a5f25ebbe634b52a8a],
    [0xc311d82bd7b2f86ec14e5cd5b06c21fc97669fbec962acc100960770c32afd2],
    [0x2bd6b16928fdb2e2ac29f2e69419b14330517b4a870aaf7390e38c1be912af45],
    [0x79b20945b8217e218687df41c1da42e127451064232f429dfc55dda5807cf86],
    [0x38e401f71efd04d45d496864121c027f6ddc90fea0d162560553302994fced5],
    [0x1dfbd25954ce54f9bdf1a003f3d4d8ee937a3eecea81fbba55a07c1ec9ab2e52],
    [0x1f326c458dbf469eef0bc1c068757eead9fed052d0eefb807413a3424e353391],
    [0x24f913ae7197ce25f16fe6183a553e752ab250851588571f89fd1fb304226928],
    [0x1ba79aaa080dc25cdb6047fd1b88c491179a129c37a7c8a0611c996ee296fe60],
    [0x2e00cccf20f4a49b83795d80217262b7e89637d048dcb308029cff27f37d577a],
    [0x20c0f44c6f454008563e3a27f77fd661bfd97391eb87246bf948e744febc0cfe],
    [0x1308123df6285b57f61bc5d79a890606976d65e6ca4906d30828856467f934c],
    [0x1426df5f8689ca7abd93cbd2c25acc2959b696509ae89de2ae4ad1fe09e7db36],
    [0x2b25b1e61fe4f60d26776fc6990dcc8f551060a8c7fd4ee11a538f12e71723fb],
    [0x1b093bbfdd6b2b164d6f32c9cfebd4e85c291ff6ab5fb002ee7430f6f248ce7d],
    [0x2526c49738671af6b2a9b5314fbb48cd527fdc44fff8151905a457c31a42f3b5],
    [0x2136f240750a7eefb0a02c0de74f27e62df7bfcf731ff89cf4396ca52dbc9acd],
    [0x165343db800cbca31cf4cf163dae44f6491dc2ad02086a08fd0eee7d135a3de],
    [0x13ad9df22bd2db5326b5dc087183e2e060b71cdd833614c756f272adaf1cecd5],
    [0x17062624038609ae382fbd5056fa3d8e7b02728b4e2bb8d154883bff26c65772],
    [0x1402825a5392d0c8ce80a18744061480d53b9c41f62be856ebdb92155fd2092],
    [0x1e715c074dd724e2e2c3f765287e841f6707659ee8fc5efa4ae4ae72a0668be7],
    [0x2fb2535099a5fe570b2e64711b964adcb5b8f138273c9d36c161af771d01760c],
    [0x11560e63c8b4ade8174487a08cb9df5a9dffc6a7a9f639e539c4e8833d417add],
    [0xe583f36a57ee9af680959accf6113783ca3be503ee4bcaaf83390e73fc444f4],
    [0xae8d6005e5965256444ecf7231eca6eaac6935f6f7e0bf29f732767f84c2474],
    [0x5cf0f858ed923f2bc3c1e8e20c29f306a4998ebfd221d49832a99eef76113b3],
    [0xdabffea6626d00ad81da74e3f60e36f3931bd12c9bbac9090f5592420f0140d],
    [0x19b64645e2225b26a154dfe995cefe71707cfd16be9c01954067eb384aa92f96],
    [0x1a823d90efdc4d3460ad908ca1a55ae29006a3aad30279e250dbb4b802a62087],
    [0x15f2a36413e24b8220449caec4d02b65f3a3584cc8428323aef1f1cb27ace54a],
    [0x2f993e6cb72636a723f29bf01f3bec40910a24e20841ff28563109c2e8f3c8e5],
    [0xccae7b4dcf92cb60a6f77a16257f6958e4c431b882808810d840553b36b5e5c],
    [0x15e80e5c5d8a3c5348a70f5b804d91c44fe211e188340190cfbda3750a15cf55],
    [0x2fca92c2dd2aa24fde6da8777ad9e8271704c7e9e4c6a4610d2a8a4b6ae019dd],
    [0x1b9fd80cf9670d6b537de26355eb9fa9597f1a88ea07c5eb8414b331cfb6e624],
    [0x6f6e2619a704fd5b4936e4fecb3706ff4cf34548d26eb1dc9f725650a05b12e],
    [0xb8a3e00068db4d4f28163cbf7739ae5135c4cf8d60ff92f3b972d872d2f9682],
    [0x565ff865d4174af195c8cfe29caa0fda62ee9d5781347ea232c4e4682242ffa],
    [0xf7b0ca9fd2b47f93956f3f44d2ff8206b1a521a27b051924866307dc7ea876b],
    [0x21fc325722003f14a6245ddabaf7307e7fbbb2dae291434bc3298d4aef04f528],
    [0x10c597a2015e571fb73f92230e932b09788e608868081ba14e08df1efe94280b],
    [0x217073ce65eb614459d7ff5fba6093ddb6732fea276c9a5dd31b29da06099a25],
    [0x1f33fb2e7bf99d79ad176ca071082e90b23585cc725a229a3c884109f47a1b07],
    [0x14886644f736a7c648dde648f3c302ee6700d88e63fa8d23c18500833b79f06c],
    [0x168ed558fd935ac6ceb5eafe609e58397516e31867a7a1d0f9475b3cbddc52b],
    [0x15b6bf6e4ef1b4e50f40c8a5d89f9e006de677a27380408c960abfbc3c1d48da],
    [0x27839860af94818158a566e48e040808dbf5d8c6b294ea3557d934b7588fd72d],
    [0x214ede74e8948e1d6747e90f41886a4140791905641ab0d49f9dc61313f912db],
    [0x1cfa7fd756c8f77c40e606314f66e69dcde6efae9416c4a16720825be3a0f000],
    [0x511cf9943a21504debefc54b911b7906a24907312a98f931887ff18375542ee],
    [0x14dcade67ed51ec01bd2be1d98faf48168d1e04d4eba1f08f4a9a493c17113a6],
    [0x1756f3269ecb409251b8a0faf37fb30ae33cdeb036e2bcab406ef4b17ed81090]]
  wHat := [
    [0xde20097480e7555471785de07bd9809d57dd859bbe827307c33ae9ed7890597,
      0x72f2a6287fb984bb810df8c5788eebcfd2825613cb72bb80cde8edd76d2e97d],
    [0x210b5c36f27a07d97f98b9d8663d85db2e64513099a8e1ef6db21043631e24c4,
      0x13bb2764bf1475cfc7bb9f3d563c5cc201c2489874e9159326a8f4930b7883f9],
    [0xed59780302257663f72c1bfc6656eb7b5bca2e47bec0d5798a08a32a61a8a65,
      0x7e19cb8a893369b3d30ae188c767f391c11888a3000debfc8d30c06143cc084],
    [0xb66fdec210ea4eabf623d2712cf4d9fa90273ccb4643f680cbc98345715ead8,
      0x2fb6a29d9f394a589b633b8a4d6be51c9c0601ce0b140be641acea41c49aa5e3],
    [0x18c6230ddc0f896827b043f5e58dbd1aec13995a202e4ebcdfeb969e9d5c1212,
      0x73a6114b997285e1a91c0a0fdccdaa8452e4f07bfd2e1a10578232096db6dcd],
    [0x27625da0f73ea07110689fb2187b71694cbf9203fd4ddf8a96ece85407550ebb,
      0x1cd8338a3e5b1ad7cdc0da581a6950f6dea349c3edda06cb99ba025b94e4790d],
    [0x11a316aa31607f268fb4c56d6c57ba01627c3635fccf8d3d1a163e601d1a0173,
      0xde7ee069c934256b782648b560e595408a5e8434644609152e353d9c2874e44],
    [0x2161cd280772819dd4a81262b71df1bcc2c1d41b9491e0620bda347962b240f0,
      0x2cebb0ae5108318eb406590041b5248292533364f799bc41b7f4fdd12cb8d38a],
    [0x22accb18b7c49b4b7bb8c9fdf78b7aded52aa1842fff818d9a3300876dec3ad9,
      0x81e2f0652f898c6d659f22d2c77be302eabd9182a0b3d3cbf623a1df7f8f2fc],
    [0x9ae612e8ba1ca1370905fb67899d10db86b47bd19965b6edd1a9486e3c6cc55,
      0x262e1e0b56cac47fc150f284491190e6aab75445b0c99373fe1f7a0e3b95cf3d],
    [0x1cb3caed4bffb6aca9f4d2c002921bc3fffed333cae12085c612496183b87996,
      0xb47e9755fae480128a128bfd4faa6a3dd6ea03cab566889dcd99e84d310d51c],
    [0x204f26ca7993b03ac2c35377cb0a3712bfc9bc3ec0bfecb4e87ef6814acf2ea2,
      0x85aff9c7fdadba039d832d8be165a1e5747cf7308d515e348ef117e926d721c],
    [0x61e8328fb5593f92a53dfd40e1022e6231ba45948506282536b08b4476c1538,
      0x1b589243847198ded90b644bee31ac58067debf3f07d3c51cfa5a0dd9f6d9784],
    [0x2a1c3f15d4927c843627a9cd533e4250d81e7774d2c32b59d5836f9c19a5657,
      0x2ddbb7239eb904d81c52499b37cb4be1af0373a10ac112e185acb219899357e4],
    [0x2d2ed17f7a1f3ee9e20b470cad4cc7319e6adb40e2ff24b7878cb9878edbd3b9,
      0x1a81efb19d7e1edaa96fa276e89e85d08f75e54a8136f4d73c937da16c7bf9f4],
    [0x20ba8a9fcec815b13f349ff830ae663b27576e135c0744f6987fb0f6ff49c217,
      0x11b6afc91e32f1ca4589fba12e657d226d57b471ddd2ab1b66a8ae4dcbfb136e],
    [0x927f46cfe80feefeb2721a4c09e9d17f60c34500dcd6e41e2925a39c8e2c7c1,
      0x1f868ae04832a5dbc37619bfe6ab6a97fd8fb2cfbc1ecf9e0e484bbfe7698101],
    [0x47998cc0af5a26b94ad301e4b998d29e960a4851cfd13822bed35b7146966a4,
      0x1b5f1525b31db911dda43e415e1b9a3a9725c7b52e880ee130a14a692b777b70],
    [0x2f1af228520c8b751dc91136c91c6bccd5367eb08213d392958ce2fd3d7d2fce,
      0x1fecfe833ad540455c6d6c1ab3de4abae61ada625a1a2b6b18551a45a6cde123],
    [0xa82f199c2505277ecaa75e495f34e3525824f7a4a9d9fa1da810832b48a50c7,
      0xecf10485307b4bae92fefb0d7f7782a9f37a2722e7ed9eb7925a2dea580b7d5],
    [0x20e46219f684186d2a024b637bc35a29ee3b08ce737701392d987dda9217fa08,
      0x2ea7279db9f2aa0f654e987907277c24480766367a8bd90e28be0f2ed6091367],
    [0x176ad3600fd3491182d182957ffad01bf6c26e9d4ab0c23caaf308e427d3dbe8,
      0x2b6f355b3dbf65f09335001d705ac125e3beb20f4fc11bd3ce82b5cf0af2e6f2],
    [0x10a892763b3cca9ef7593fbb1140edc8c8e4580568560cf41867f7464fb0c11a,
      0xb5ec64548ea841ac921f9b2553680785978b315667ae4714dde4cd7f4de8b91],
    [0x762098f5fe26598ccbf45e4810211b0ffcf8ccbb92c16e2f4f13f22342474e2,
      0xe234d720d70b2886d0da4c007b1bda42362e144185c70716dece2b6172c2514],
    [0x79769092daa5a752642c04ccf8a6ea54e2ac9836fdd65d248b186f1490b7b99,
      0x1d8bf229c19968f0254eb6e09c5c8bfd67eb9734606b676b663c76cf76bab4a5],
    [0x1fe1cb0e2ae169f83b9d4f133d41fb5b3fe6c76a82a916bfd9b62f82f0f8d0bf,
      0xef79351229409cd353329221229827e19946f3d8d1c48bf5e3377f9177071f3],
    [0x124860913e3df8f65a9c4060ce3297c626abd1c22401c905ddb408260d8e910,
      0x13807f89c394a133ec104804d955cbe125f24c5701d98286c6ac8b7ed052ec8],
    [0x609551b14716ca3cd5560e0821e7285e0a083ea9a16dc102ecf461e4aef7277,
      0xc8c1abdfab99d03fd93dced2467354b6175de1755f4f93dc0880eaa08d03f77],
    [0x1289d13d58a17b5bf0712b201fb3cddfce2c16dac159990b8298a93a8589f9e8,
      0xf45cf974d2c9edb5781e8d3d207adc8370cf56bc5218749610920fe98b2db2e],
    [0x154668727d2dbadf05d083a65093c0d0e92df5fd5f3fd75e9b792c562a37473f,
      0x1e6ffc5d6a1ff5dc4fd77fc5ab5c8c4e8d3e2e375bcd1194a91e5b0f7b13cadf],
    [0x2a852b6247f5d61f0c390b3f3d799188528849bcd2cd0aff4eb2134a039b5126,
      0x2510aeed51b7f506e65fb9a18ee0124aa5276f6de1cd771b165930204da58f22],
    [0x2d94a1c55be382151a4054c5b96322e7bcd1fe2b3e076e16ee2c18bfc06f57b4,
      0x15e3402fdde8770fb997369579c1b1703ef77c671927ead80dbc64dd2211c3ec],
    [0x8c6eb19c016d1833174dda182d266d5c727f97fb4d01f1daf906b6d3c6e2308,
      0x1359d2d6c8b5a116d0b38b95f9c642df75b1be9a48c8698ecfea9103f73f1879],
    [0x1d0a6d1a9519877805ac90d696faf2a5ffadc23986de8c698d541471c7244220,
      0x2208aaba508ae816da4f333b7854fbbcd10eea1db284ec3e9f4de02b25f6e9d4],
    [0x2e7987ea8204389d11eb10b34265e378a945729f86c3e0e2fd38490d3a594141,
      0x826d4a2324ad3aa4b2b45c10a190fedef702aeffda3226ce5415fffd03935c8],
    [0x68b75315e25ed4ace5a4a9480e1d82ce5d44f76f1324240419f372ff8d3c3f5,
      0x1b7ef7d04aec73d62b052d2ad12b92a4268fccd795c839d698ad3b22823274d1],
    [0x2ed11ccd2e2e2376655ffe9a96c4b81adc0a60353c5d83d4d0ebf50d1bbf87c0,
      0x3e31de8958e82645b320d5e3e966ef4726d5b1c2cfbb4acd288a21543c6d594],
    [0x1e56d244a8e41be5d104d5f8ef70891d22d4a5432441bfe8ff1a16e91719cdde,
      0x1d4f020c57c4f14aec908b2f99b5c4fd5e09447fa85c2fd68ba4d5c5f50c7b49],
    [0x2a134348c8660efcf9ef54863e70528a1fd4481b50a1fe21f24a8c06e10cca03,
      0xaeb5023bbb9a64c4bd80089e99edf8ed5f6f1ffb63a7dbba1b33520bcfce37b],
    [0x63bb306b96310051385c3ce00ca820ad0e3651a6e55754d59de6df28cea4d51,
      0x1f761ee5553c5e86f2c304a18095ab7403242e0b65e608bc920cf993a4169974],
    [0x2ce12d7269663770c3cab85a6215a32eed35fda1d8e9d753a50fe96097724a9f,
      0x3d7427704c61e2009eeb9b1b45a0125084bc4daf70973a7ba0b2231815b15de],
    [0x370d6fa19eaac142d2de034801ab85e0b457e129e91f929754b48c6154d4df6,
      0x9a16f573b3280f390762abf269579eaa37939bc0c753feb0a2b2e0bcbde1659],
    [0x3bd7b3e2c1885877f43182a55a91d48f9c58d152e730fe2c7aa46b1fa663baa,
      0x226ebc9a538b5bbaff128edfb9bbf5fa0ceb100719a14c8dfed9ffbbbad9b6b7],
    [0x671f0e3b674ae7cddc790ecc4e946f4bca74b98b78a127c7b56bd6673f1ce1f,
      0x19fc073797a39b272e40cd30615f55fefeb682c1ac14143071d0449a5426e4e],
    [0x1319c51cf37aaa10246cdaaa04a12e88795de4452604263a7c5b79ab99cbd23c,
      0xbca25588d187b7f9dad839f2c8cb526a4cf444eebbd0e715b6cea019ac3f2],
    [0x734b2366c59e394423f179e1266dd392372db4f2dba651f4a619a4b52bdc010,
      0x11fb2d705c94b08d5ad3e3c5fb6629abe963ed92913642c7d02d7e71088fd2d4],
    [0x2d3562e3d4b42bc6890b698cc6ab89f7311298bcbac6e4e9f2f4d93d06dae151,
      0xa74ef541d360e842e3e0b6ff7e5c7c77934a5f67616f01c189d886dfd2e0808],
    [0x31511000251ec86feb38b5ab4e335f070b271df4c20979528e41d65384c318f,
      0x18e588324a9bbaacb42fa69e5d90a0c0e27cd16b941e34a60ff5df9a26c03af1],
    [0x22df2420697ca28b5cc51c53165e002727b45ccd90a55c87589f792f0ad8cb37,
      0x2f1438303a7b49d473400aaedf0f48009fd3af804b76be86417588efc4d7302a],
    [0x1d0406bcbec83f8d5165f56c063e42108ad21f51ea4bfc71601174ba5c7b8bcc,
      0xc02b18eef22332d280a8aa1f86405f3375f06342f8696ee7c73b46c63272cb7],
    [0xe0766004b4c4176eb13273508eb6575f768137d86d305be644ce04531008100,
      0x625fa7145813481f6d148be6b9c8bb7b54ee3c1afac00104e1f763000b9924c],
    [0x2d5397ce863464a25d6b7f5b015d579181d1ce2f24cbabf6059e9327f5ba7004,
      0x15bf817491b94d71e8912940cc0b80277713e7d32da2b6591724d8dbd4bc2618],
    [0x2eac25b3498dfadffd124ab3aad57789eb945ba57443099c5bb6c27ed977fe24,
      0x1ee02c175cdfe1871b378305c1bb9c904e8af1d4454ed3550b3c6ab5f4f90126],
    [0x2f9d4b55495f7e377e20e6f5a3a88af7aa6a536458b38bbe13c8ebfbbba54f44,
      0x1d9e9d5c736e3151f11d36d499e7e093d8ee2353be18aad54cfd03ff0feac4b8],
    [0x2809c3a1547c0cee89c1db270ef479c26973ec73edb4bd4e7d907ea0202f560f,
      0x11c34446b083ef92ca157585a02b8b342a4c67175b31f4b5d40d4e96dfc5c8f1],
    [0x219d14f823513140dc69a96f7fe7e086f4fa24c84e57dcf2b099715c4404aae7,
      0x3a30bfbbf2cb86d4a6a63a8050d91f9f14f4d33696d37ebaefa9ac2302132d5],
    [0x3f0815ab463f1b76ee25a9b8768b3231a89752f427f4f063ab718e707576b31,
      0x15648bf46f60d82954c7e33029b3617357012a3d3b1d34c8e008859f1dbfb317]]
  v := [
    [0x2969f27eed31a480b9c36c764379dbca2cc8fdd1415c3dded62940bcde0bd771,
      0x143021ec686a3f330d5f9e654638065ce6cd79e28c5b3753326244ee65a1b1a7],
    [0x202cf557d625c26080eb082862a76757287872b181e89997219e4b7576e24d30,
      0xe561c3f8bd4f76e76d49e97142d220601fbc5a03d905a4728ea1f95fd8824b2],
    [0x600c7d2b6946345e5f1eeeafb5eb8ec2b6ecfe528d2c052cd860afb4a3aa272,
      0x596083b6c972bc13022a1f33d6523b4773f2cd0a480e19ea0125119f0385705],
    [0x29025cc66fd041c4fc845e9c1c2cd1288569fb243d049bd675a69dc889b2ce2a,
      0x150963f0aca9bcbe4126214ab9c627a6f7ed731cfa695168b85d534b17be3f48],
    [0x2e78746340b2a6d222c6a1fc0838adf5fe013f39b1660ce7a3e7742b2f37be7f,
      0x7aa27e7150baddd06303ad8e5e4bf4249b7ea846553def28e675259d3e5c851],
    [0x5ea02d65b209f6da763856c94b6438c78a8aed8d3e67e877a10a84072741a56,
      0x9f7cb68d4e388f85366cfcf284a895d8b6250ced627e810817743ce03330a55],
    [0x2d36f4029245704cc84df0297708c5e5845c36ae706c72e67128b8949eab1af,
      0x1b8cc326b5ee160f53198c217fb34e899bde46cd82dabdc284d7951d546f858],
    [0x2b2092f86b5979a7fe4f7c22d9561f3bf2852283a656880fb759e08709a0a62f,
      0x1566b3402d774b8c08146188425a442450cfc900cf643e7382b2d8507a065fed],
    [0x12c0a25e70d006eccea3ada75d669b8c534b962890f3ffc016b3186ad675b935,
      0x10ef9c23848128cc2fd6fc869df24d7ab56efd349edd56f49f8d4f2381df3259],
    [0x234bf4a7dce7587c2c87c293e3bb7c9e2a7bfa5f29fd4ddeaa5d3f67491d34bd,
      0x2f6cbac694c886b02d0a527cac744fb658d2690e213d7432eee67f6cb69f70c2],
    [0xc7e4cea365c2061920a0c9fd2c360a6506293bc024fd1ca3f0bb730da886a4f,
      0x21da1f701bac77bcbbaa30d964d6f6f63dbe1b20d9d6988c8dcd7ba4187215df],
    [0x249042a8dc111f27c4ae9db044c0b0b3f10e57d05e093158efd375df00ea2068,
      0x6e799bcdf2b4a74542854f3029803e2f84550665203327b3e0825977413e96b],
    [0x4b00c0da1f851e59863b053bd4c6087190f0bdcced99d5ce6f67a420a3bd1f7,
      0x239941a46c2b93d9126a70163009a7ac27f8a8d42e35018b3bec8cdcb5ddfd67],
    [0xdff198393085a754e0d6faec54be81d8edf8bc25edadab48a86fad6da0afb60,
      0x10d50c2473146bbc76275fcc589d038dec8db28728789f28b6d5f504bd1645ca],
    [0x27ff57c1ca847e57210a7b44e52e5630f299c5f451c7a0d515a16bb3bd33e237,
      0x1c1a8e22230abcd13c5be96031bfa167840d117b3c6a5a0a11be26a7f5fb1a94],
    [0x2e666402ac9cc588316e335c7d93db344788eec2c72ddf3f908141736cebc3be,
      0x17522e0e9e64f795a202a110e283faad7057aec5c9ed9a1a74920f2794f18595],
    [0x9d7a11e27d2f53109b73f745b2defed65d94ba80f308fb19ce6d56c9b45eff4,
      0x282d857cfe8da3b5104e1c2823fb7c5b9a7b25924fda5995b0c351aa2b879dff],
    [0x275a83fa5d19b4535f65e965a90eac9bf770ae9bd1d7b1af945fa57ed5c8de6e,
      0x2e8789257ed2cbcccb430568e49bc9dc2a563359808c9897ce3e40a6f6a27aa8],
    [0x18fc8e608c735b2b3b0d7583460227575657ff8a77abe637bdd3ad28e4a23c88,
      0x28f740bc1182e9706ebf03cb3f53aba8a43ce0b618783a5586388a7547faa815],
    [0x7b642138dfd6a6dd12aa22f08a8296d68615c8478f13af16aebbbb339a3936b,
      0x1d9dda43a25593ffd2256d34921fb86ed70e760ba76d61e9cbc3b6dd0f1a2150],
    [0x136be2a7f18924c9362096d472bc75ca0969dc077c9171b1641be95091780f74,
      0x1ca2033501baa3f73067c4300fb0f51119ed5736fbc8f1f6c924baf0df5a0e9e],
    [0x1c85c06a6d5d40d81d7c89edefb32d1a8448c51288fa296b6de9ff788c77451,
      0x20e1e876c4746a0cbd9a51d76b2e25f82361c389e43f7d1f51a70aaac2460d79],
    [0x10554aca4e348e5949761bd7131dfaebd78010edd030e1a9ce3c65c9db931d46,
      0x15be66f38d86b0998b93655462b1f475b9be9de306e150d4ac648fab3db0cff6],
    [0x1d82bedccd2bc8a06e3742e720b7fec2ea72182f11c0c60d135c811152aa4b60,
      0x480064d4b3eb0ada5e9a3e7d05930b7c3397fd6b94d481314bd1c690a17c979],
    [0x2a33b7d855e7fe55f93556e49e4b37737664f14236f17256428f29f6ec1bddad,
      0x25b0331d7e2b15af4ec161c86e84ba6ab2056077e7aa7536340dc3187ccca8b2],
    [0x18fb2e46fc1b90fe1c4893ef77a9d111507551883127860e89088608373beda9,
      0x77afe2579f42ec14c32ef0761e23a3cc0ad6263a68c5cb61916bd57120d1868],
    [0x2e88d1a6938f0788132aa9eeaec08d2f59aa444050c8f4c4e85578abb0fc2fe5,
      0x1f3d24f17cfc6050a0cbf64e1f1787e2257be3c3ba607c2e8fcc1f26abf3104],
    [0x138bd098c4923b9fbd02f33f8bec6c730db3fed298ec09f78a7a55d08f2e0b10,
      0x2e61e4bc021630114673f0f77161ae55dcd0b45ce07d9ae3f21bb5a3190f14c0],
    [0x11909c81a16518046b79edfd24f5abcc585a81d1b333568b8687a1c9eceb44d4,
      0x2990b23c81882f7709f3b891a0e3da4d6917672f2d5a1041fd7bbd6792330d16],
    [0x2cf1a1d7c44309109d75acbc9395cb8398c8b2d428538571fafa389da29990c6,
      0x140fb39a89f26f6d87cf76cd5ce8da47aa5d8a023e24cf016ecf64cf793c9880],
    [0xf2074a32eb8260fb5bd3a236f03a47b47b7fb54dcad1d7977d6486513bab5f2,
      0x2f4c69297866bd45a8270e19941926cec3531c9e12c4c2c84971404bfa044090],
    [0x185be98784817f22f7b21e6b867d5a71b5000bef8bb902eb302677e20a727be3,
      0x18db4321c721c03666ed8927c89890aa8aad1b00c054547b5ca14cd94de467b6],
    [0x10c5052ec67ab9b6a467c1cc1878d91aaa07aacf7725f8a5ed42b699c4af3ca7,
      0x583c4d292d54f3cdb708803e6338fc6afdb188d5d4e9f060193823684c96c75],
    [0x28a58901035b2c99e36a7d29b587a215c9e59268e2f8e01a175720971ccf04ec,
      0x112f6d8d42b0a0d123a07865ca1376df317a2a14ffc0191226f38a8adfd6238],
    [0x2dbeee85eaeaa9fa3675ef541c9df7bb964a85435c3b59685f93b434036ded,
      0x227ee7a945edaee6919418ecb3279b11e6fa44f5f5c5abfb966a4be599cb86c7],
    [0x28c0c848022a90606f6193ff5501b57216b670727f4b8efcc240d30bbaa9f03f,
      0x13bda49296cbcc51686a7bfb1c39f3f254370985a16660efd6e5d82d4f068e1b],
    [0x11e880dfefdbd08858ae890046533d58da28a608d7e905366ec2ca4a36e71963,
      0x1835b275deaed2d00704a9c3cc21ab7a44a34662978d53c190dc25e969a507b2],
    [0x763911a3a92a4f0e09f4e14cd03398d8d82a1e09db80fb0ee1e833764c18fd3,
      0x12857275be2fe6b9ba2ec68f9061643f1fc5d9a2c5e47e55684366e54b302946],
    [0x141a6d0810366ae225ecb5f0bfdc9995406c5960ab26155836fc51fb7cb933d1,
      0x9d2ea05ef54dadbbe776f404dca6626cc0b2539990bc0b8bfe87497f1e2c5b7],
    [0xdc5f00bbfd7c1d9a23c0e666859ba6564bcde8761b45717cd6bdfc09de4e8f2,
      0x6de511520e277b7df07c3536381c13eb44cf790a230abc391089760bfc40ef2],
    [0x10f8abf0764185861c1267fcf4b4b33ca096fb4ddc4626732d86921e553e69c6,
      0x17ccaf6f26f7267a025d7cb456e3aeb251a1a620aaf6568a5c95644c7c5914cc],
    [0x2228e360fb5b162b496ac443f98127ee3c0021a690b71b268d99981368231d97,
      0x7e42c2ca633d2c49fabf83991476d209431e34d8032b6a1b97675f3c567f944],
    [0xd395f0b08b9fede0373a06e1552c0e634a49572af1d830dc6e394e8a5d3b21a,
      0x28242439b524540a30d49b68e19e31ba5284bd3bcf1e0f2f41f77d5331f99ffa],
    [0x17bee47d262a497fd1f7c5c6d5a7c70fa4209480bf5d97311c5096619e9fd13,
      0x2073cff92d3141b480763539cff2978a4c7944721cc937ba00cc8527274471e3],
    [0x1d837ea0341c5964181226874b923cd01a069b493f02f7a3c01be23cf51d593f,
      0x1b41ce9ed3634cbd42c427ce4c5c83774149e2a6dbd25f24012090db7de4e7f9],
    [0x27d03abf5c1f290e5d715eba19371050ef6eb7f78fd84be834e4cc3618059484,
      0x13ed9e9e6b452df27fb3353cfc2cd63ebe817f212a39c6a8bb9b441ac1395861],
    [0x140564b53e0a812ac3983d6e3b433afa43f434087d9e754967c2c9b1b02caf8a,
      0x14709e32d98ae4cd18b400181e71ab9759c436c8e83fa6993adb6f2db6bba9d0],
    [0x2642b5d8e16b953b070635775c8d3c9498357d6ad9bef2e7d99f03c10ea1f95f,
      0x21fc313ba11c60e8e84ff60db906a0f031189b0b48335c4221f909aef836c133],
    [0x2323d5fcf2da8965c6b2b7b4fbf9a24bbaa7f4dccd35d5ca6155c5463093b23b,
      0x26c85b9dfbbe48fe83b753a5e7336b9f40f7b961e9c54f94e37700073d4d26e],
    [0x17c1fc174cd9a6ebeaa7add2f801a664823509ad4fd1b15aad053a55ad6da4cf,
      0x5f843c23024eb1dab7ebbc86709a021aaa6caf433f7ed258a08638e9584b32d],
    [0x7c5472508b459916ee0f5461aad2e0b19cd9c7b184f515b65136318ce2c6a5,
      0x567375470d189b693ac77ab3fb7557231d53073951d43c54685879cb7a89fcb],
    [0x2a7cbd11460b177ab76feab28b69485ac8cc687740bc910994a3827d29c08714,
      0xf7cd5ffa4661730ab56e447fae5cc1763cb462da80a85614c237b290de9d502],
    [0x616f8c34c607266b29ea8f9d2dfa47ff6fbb1d9745c48609fa98301d0f679d5,
      0x181d68b0a188504958b9f19cbbdb972a853e51ed385e4883a43a42832803370b],
    [0x124b617b43e598f9ebf622f7823a3de7d1bfedb87e097c315f343de301e54841,
      0x198e7cfc66ae45774055cf073bedc945a5f9c5b19cae08d789cc5748ffe199b2],
    [0x253ea0b33a8bf3b2367c030e3289cbe0f6242ad7709d90b86d9d8026e2e39925,
      0x30467dc1930f6afe90c89d4007ad29fc4f5a19c006d1030438c16df85637bd5f],
    [0x2121bbcdeaa33a35b0270fb7d5c9f94edad5a84d74b06e3385104b0b41935bcc,
      0x196b544fbeb0a792cfbb82c289e579b7cd5580c2e338a389d053ef8b3d10e70e],
    [0x127e00c2253de07818ca7f2eafdd7564d05ea850cf61f1daa0cfefbf7fbfba85,
      0x66365afd18a41ef9382fc0b1d265cb4d3ce470a8cbbb878f7d48051630747bd]]
  mI := [
    [0x1, 0x0, 0x0],
    [0x0,
      0x75be6d3b7ae2cb49856e0b1aceaa84737fa30d5abcbc51787bea648df15b75c,
      0x1a81a72b8e5439376d3e1f3ecd5bdbd8415b7680449d451219b117c9095fa111],
    [0x0,
      0x2b3dee28c2ad61798b1c0e35472df28961bf999c84ff13b194acb673c9e87ede,
      0x23aa557f8476747f032d0944d68b2ba21fed9aee9f67d3caff9275d3bf831c89]]

set_option maxRecDepth 100000 in
example : poseidonT3.permutation [0, 1, 2] = .ok
    [0x115cc0f5e7d690413df64c6b9662e9cf2a3617f2743245519e19607a4417189a,
      0x0fca49b798923ab0239de1c9e7a4a9a2210312b6a2f616d18b5a87f9b628ae29,
      0x0e7ae82e40091e63cbd4f16a6d16310b3729d4b6e138fcf54110e2867045a30c] := by decide +kernel

/-- The tables, with the parameters for pairs in their place. The other sizes,
which no tree hashes, are filled in with the same constants. -/
def poseidonTables : PoseidonTables where
  params t := if t = 3 then poseidonT3 else { poseidonT3 with t := t }
  t_eq t := by
    split
    · rename_i h
      exact h.symm
    · rfl

end Railgun
